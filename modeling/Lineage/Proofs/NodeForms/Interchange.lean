import Lineage.Proofs.NodeForms.Likeness

/-!
Mappings and elements stand for nodes equally well: a tree of mappings and the
tree of elements that it is turned into are walked alike. Main statement:
`elements_for_mappings`.
-/

namespace Lineage

variable {σ : Type}

/-- The ancestors of a descent are nodes, and its cursors are data. -/
structure Descent.Sound (roles : List Role) (descent : Descent) : Prop where
  frames : ∀ frame ∈ descent.frames,
    frame.parent.Plays roles .node ∧ frame.cursor.Plays roles .data
  lineage : ∀ node ∈ descent.lineage, node.Plays roles .node

def Step.Sound (roles : List Role) : Step → Prop
  | .done _ => True
  | .more descent => descent.Sound roles

/-- A directive whose index is data. -/
def Directive.Sound (roles : List Role) (directive : Directive) : Prop :=
  directive.index.Plays roles .data

theorem Descent.Sound.mono {roles later : List Role} {descent : Descent}
    (hsound : descent.Sound roles) (hlater : roles <+: later) : descent.Sound later where
  frames := fun frame hframe =>
    ⟨(hsound.frames frame hframe).1.mono hlater, (hsound.frames frame hframe).2.mono hlater⟩
  lineage := fun node hnode => (hsound.lineage node hnode).mono hlater

theorem World.Twins.told {roles : List Role} {first second : World σ}
    (hworlds : first.Twins roles second) {message other : String}
    (hentries : Entry.Alike (.said .debug message) (.said .debug other)) :
    (first.told message).Twins roles (second.told other) :=
  ⟨hworlds.stores, .cons hentries hworlds.journals, hworlds.users⟩

section Beside

variable {α β : Type} {roles : List Role}

theorem Beside.earlier {faults : Fault → Fault → Prop} {results : List Role → α → β → Prop}
    {later : List Role} {mine : EStateM.Result Fault (World σ) α}
    {theirs : EStateM.Result Fault (World σ) β} (hbeside : Beside faults results later mine theirs)
    (hlater : roles <+: later) : Beside faults results roles mine theirs := by
  cases hbeside with
  | ok hmore hworlds hresults => exact .ok (hlater.trans hmore) hworlds hresults
  | error hmore hworlds hfaults => exact .error (hlater.trans hmore) hworlds hfaults

/-- Walks that enter a node alike go on alike. -/
theorem Beside.goes_on {act rival : Act σ Descent} {first second : World σ}
    (hbeside : Beside Fault.Alike (Both Descent.Sound) roles (act first) (rival second)) :
    Beside Fault.Alike (Both Step.Sound) roles
      ((act >>= fun descent => pure (Step.more descent)) first)
      ((rival >>= fun descent => pure (Step.more descent)) second) := by
  simp only [bind, EStateM.bind]
  generalize act first = mine at hbeside
  generalize rival second = theirs at hbeside
  cases hbeside with
  | ok hmore hworlds hresults =>
    obtain ⟨rfl, hsound⟩ := hresults
    exact .ok hmore hworlds ⟨rfl, hsound⟩
  | error hmore hworlds hfaults => exact .error hmore hworlds hfaults

end Beside

namespace Walker

/-- Two walks with the same test and the same visitor, each in its form of the
    tree. -/
structure Alike (roles : List Role) (walker rival : Walker σ) : Prop where
  check : ∀ later place, roles <+: later → place.Plays later →
    Tracks (Both fun _ _ => True) later (walker.check place) (rival.check place)
  visit : ∀ later place lineage, roles <+: later → place.Plays later →
    (∀ node ∈ lineage, node.Plays later .node) →
      Tracks (Both fun roles answer => answer.Plays roles .data) later
        (walker.visit place lineage) (rival.visit place lineage)
  reverse : rival.reverse = walker.reverse
  annotate : rival.annotate = walker.annotate

theorem moved_plays {roles : List Role} {cursor : Value} (hcursor : cursor.Plays roles .data)
    (places : Int) : (cursor.moved places).Plays roles .data := by
  unfold Value.moved
  split
  · trivial
  · exact hcursor

theorem cursorAfter_plays (walker : Walker σ) {roles : List Role} {cursor index : Value}
    (hcursor : cursor.Plays roles .data) (hindex : index.Plays roles .data) :
    (walker.cursorAfter cursor index).Plays roles .data := by
  unfold cursorAfter
  split
  · exact moved_plays hcursor walker.stride
  · exact hindex

theorem Alike.stride_eq {roles : List Role} {walker rival : Walker σ}
    (hwalkers : Alike roles walker rival) : rival.stride = walker.stride := by
  rw [stride, stride, hwalkers.reverse]

theorem Alike.cursorAfter_eq {roles : List Role} {walker rival : Walker σ}
    (hwalkers : Alike roles walker rival) (cursor index : Value) :
    rival.cursorAfter cursor index = walker.cursorAfter cursor index := by
  rw [cursorAfter, cursorAfter, hwalkers.stride_eq]

/-- A walk that ends at a child says so in both forms of a tree, or cannot in
    either. -/
theorem leave_beside {roles : List Role} {first second : World σ} (hworlds : first.Twins roles second)
    {node : Value} (hnode : node.Plays roles .node) (walked : Nat) :
    Beside Fault.Alike (Both Step.Sound) roles (leave node walked first)
      (leave node walked second) := by
  have hhead := hworlds.stores.unwritable?_head hnode
  cases hfirst : first.store.unwritable? (first.store.head node) with
  | some fault =>
    rw [leave_fails hfirst, leave_fails (hhead.trans hfirst)]
    exact .error (List.prefix_refl _) hworlds (.same _)
  | none =>
    rw [leave_tells hfirst, leave_tells (hhead.trans hfirst)]
    refine .ok (List.prefix_refl _) (hworlds.told ?_) ⟨rfl, trivial⟩
    simpa only [String.append_assoc] using Entry.Alike.said .debug "Traversal exited at "
      (" after " ++ toString walked ++ " nodes") (hworlds.stores.display_label hnode)

section Nodes

variable {roles later : List Role} {walker rival : Walker σ} (hwalkers : Alike roles walker rival)
  {first second : World σ} (hworlds : first.Twins later second)

include hwalkers hworlds

/-- A node is entered in both forms of a tree or in neither. -/
theorem Alike.enter_beside {descent : Descent} (hsound : descent.Sound later) {node : Value}
    (hnode : node.Plays later .node) (directive : Directive) :
    Beside Fault.Alike (Both Descent.Sound) later (walker.enter descent node directive first)
      (rival.enter descent node directive second) := by
  have hchildren := hworlds.stores.resembles.children_eq node
  have hrow := hworlds.stores.children_plays hnode
  have hstart : rival.startOf second.store (second.store.children node) =
      walker.startOf first.store (first.store.children node) := by
    unfold startOf
    rw [hchildren, hwalkers.reverse, hworlds.stores.lengthOf_eq hrow (by simp)]
  by_cases hstay : first.store.children node = .null ∨ directive.action = .action .skip
  · rw [enter_stays walker _ _ _ _ hstay, enter_stays rival _ _ _ _ (hchildren ▸ hstay)]
    exact .ok (List.prefix_refl _) hworlds ⟨rfl, hsound⟩
  · have hother : ¬ (second.store.children node = .null ∨ directive.action = .action .skip) := by
      rwa [hchildren]
    cases hcursor : walker.startOf first.store (first.store.children node) with
    | error fault =>
      rw [enter_fails walker _ _ _ _ hstay hcursor,
        enter_fails rival _ _ _ _ hother (hstart.trans hcursor)]
      exact .error (List.prefix_refl _) hworlds (.same _)
    | ok cursor =>
      rw [enter_descends walker _ _ _ _ hstay hcursor,
        enter_descends rival _ _ _ _ hother (hstart.trans hcursor)]
      have hplays : cursor.Plays later .data := by
        unfold startOf at hcursor
        split at hcursor
        · cases hlength : first.store.lengthOf (first.store.children node) with
          | error fault => rw [hlength] at hcursor; cases hcursor
          | ok length => rw [hlength] at hcursor; cases hcursor; trivial
        · cases hcursor
          trivial
      exact .ok (List.prefix_refl _) hworlds
        ⟨rfl, List.forall_mem_cons.mpr ⟨⟨hnode, hplays⟩, hsound.frames⟩,
          List.forall_mem_cons.mpr ⟨hnode, hsound.lineage⟩⟩

variable (hlater : roles <+: later)

omit hworlds in
include hlater in
theorem Alike.consult_tracks {place : Place} {lineage : List Value} (hplace : place.Plays later)
    (hlineage : ∀ node ∈ lineage, node.Plays later .node) :
    Tracks (Both Directive.Sound) later (walker.consult place lineage)
      (rival.consult place lineage) := by
  apply (Tracks.record (.same _)).bind
  intro offered _ _ hoffered _
  have hfrom := hlater.trans hoffered
  apply (hwalkers.check offered place hfrom (hplace.mono hoffered)).bind
  intro checked verdict other hchecked hverdict
  obtain ⟨rfl, _⟩ := hverdict
  cases other with
  | false => exact Tracks.pure fun _ _ => ⟨rfl, trivial⟩
  | true =>
    apply (Tracks.record (.same _)).bind
    intro called _ _ hcalled _
    have hmet := (hoffered.trans hchecked).trans hcalled
    apply (hwalkers.visit called place lineage (hlater.trans hmet) (hplace.mono hmet)
      fun node hnode => (hlineage node hnode).mono hmet).bind
    intro answered answer other hanswered hanswer
    obtain ⟨rfl, hplays⟩ := hanswer
    exact Directive.ofAnswer_tracks hplays

include hlater

/-- A node is dealt with alike in both forms of a tree, and a failure there is
    told alike. -/
theorem Alike.one_beside {place : Place} {lineage : List Value} (hplace : place.Plays later)
    (hlineage : ∀ node ∈ lineage, node.Plays later .node) :
    Beside Fault.Alike (Both Directive.Sound) later (walker.one place lineage first)
      (rival.one place lineage second) := by
  have hconsult := hwalkers.consult_tracks hlater hplace hlineage later first second
    (List.prefix_refl _) hworlds
  unfold one
  rw [hwalkers.annotate]
  split
  · unfold Act.rescue
    generalize walker.consult place lineage first = mine at hconsult
    generalize rival.consult place lineage second = theirs at hconsult
    cases hconsult with
    | ok hmore hboth hresults => exact .ok hmore hboth hresults
    | @error last fault other first second hmore hboth hfaults =>
      subst hfaults
      have hnodes : ∀ node ∈ place.node :: lineage, node.Plays last .node :=
        List.forall_mem_cons.mpr
          ⟨hplace.1.mono hmore, fun node hnode => (hlineage node hnode).mono hmore⟩
      exact .error hmore hboth (located_alike hboth.stores hnodes fault)
  · generalize walker.consult place lineage first = mine at hconsult
    generalize rival.consult place lineage second = theirs at hconsult
    cases hconsult with
    | ok hmore hboth hresults => exact .ok hmore hboth hresults
    | error hmore hboth hfaults =>
      subst hfaults
      exact .error hmore hboth (.same _)

theorem Alike.step_beside {descent : Descent} (hsound : descent.Sound later) :
    Beside Fault.Alike (Both Step.Sound) later (walker.step descent first)
      (rival.step descent second) := by
  obtain ⟨frames, lineage, walked⟩ := descent
  cases frames with
  | nil => exact .ok (List.prefix_refl _) (hworlds.told (.same _)) ⟨rfl, trivial⟩
  | cons frame outer =>
    obtain ⟨⟨hparent, hcursor⟩, hframes⟩ := List.forall_mem_cons.mp hsound.frames
    have hrow := hworlds.stores.children_plays hparent
    have hchild : second.store.childAt (second.store.children frame.parent) frame.cursor =
        first.store.childAt (first.store.children frame.parent) frame.cursor := by
      rw [hworlds.stores.resembles.children_eq, hworlds.stores.childAt_eq hrow hcursor]
    -- The same child is read in both forms, so one of them tells what both walks do.
    cases hfound : first.store.childAt (first.store.children frame.parent) frame.cursor with
    | error fault =>
      rw [step_fails walker hfound, step_fails rival (hchild.trans hfound)]
      exact .error (List.prefix_refl _) hworlds (.same _)
    | ok found =>
      cases found with
      | none =>
        rw [step_leaves walker hfound, step_leaves rival (hchild.trans hfound)]
        exact .ok (List.prefix_refl _) hworlds ⟨rfl, hframes,
          fun node hnode => hsound.lineage node (List.mem_of_mem_tail hnode)⟩
      | some child =>
        by_cases hnull : child = .null
        · subst hnull
          rw [step_passes walker hfound, step_passes rival (hchild.trans hfound)]
          rw [hwalkers.stride_eq]
          have hmoved := moved_plays hcursor walker.stride
          exact .ok (List.prefix_refl _) hworlds
            ⟨rfl, List.forall_mem_cons.mpr ⟨⟨hparent, hmoved⟩, hframes⟩, hsound.lineage⟩
        · have hsecond := hchild.trans hfound
          have hnode := hworlds.stores.childAt_plays hrow hfound
          have hone := @one_beside _ _ _ _ _ hwalkers _ _ hworlds hlater
            ⟨child, frame.cursor, frame.parent⟩ lineage ⟨hnode, hparent⟩ hsound.lineage
          generalize hmine : walker.one _ lineage first = mine at hone
          generalize htheirs : rival.one _ lineage second = theirs at hone
          cases hone with
          | error hmore hboth hfaults =>
            rw [step_child_fails walker hnull hfound hmine,
              step_child_fails rival hnull hsecond htheirs]
            exact .error hmore hboth hfaults
          | @ok last directive other _ _ hmore hboth hresults =>
            obtain ⟨rfl, hindex⟩ := hresults
            by_cases hexit : other.action = .action .exit
            · rw [step_child_leaves walker hnull hfound hmine hexit,
                step_child_leaves rival hnull hsecond htheirs hexit]
              exact (leave_beside hboth (hnode.mono hmore) (walked + 1)).earlier hmore
            · rw [step_child_enters walker hnull hfound hmine hexit,
                step_child_enters rival hnull hsecond htheirs hexit, hwalkers.cursorAfter_eq]
              have hnext := cursorAfter_plays walker (hcursor.mono hmore) hindex
              obtain ⟨hlevels, hlineage⟩ := hsound.mono hmore
              have hmoved : (⟨⟨frame.parent, walker.cursorAfter frame.cursor other.index⟩ :: outer,
                  lineage, walked + 1⟩ : Descent).Sound last :=
                ⟨List.forall_mem_cons.mpr
                  ⟨⟨hparent.mono hmore, hnext⟩, (List.forall_mem_cons.mp hlevels).2⟩, hlineage⟩
              exact (hwalkers.enter_beside hboth hmoved (hnode.mono hmore) other).goes_on.earlier
                hmore

omit hlater in
/-- Both walks say where they start, or neither can. -/
theorem Alike.announce_cases {tree : Value} (htree : tree.Plays later .node) :
    (∃ fault, walker.announce tree first = .error fault first ∧
      rival.announce tree second = .error fault second) ∨
      ∃ message other, walker.announce tree first = .ok () (first.told message) ∧
        rival.announce tree second = .ok () (second.told other) ∧
        (first.told message).Twins later (second.told other) := by
  have hhead := hworlds.stores.unwritable?_head htree
  cases hfirst : first.store.unwritable? (first.store.head tree) with
  | some fault =>
    exact Or.inl ⟨fault, walker.announce_fails hfirst, rival.announce_fails (hhead.trans hfirst)⟩
  | none =>
    have hmine := Store.labelText_of_canLabel hfirst
    have htheirs := Store.labelText_of_canLabel (hhead.trans hfirst)
    have hlabels := Entry.Alike.said .debug "Starting traversal at "
      (" (reverse=" ++ (Scalar.bool walker.reverse).shown ++ ")")
      (hworlds.stores.display_label htree)
    refine Or.inr ⟨_, _, ?_, ?_, hworlds.told (by simpa only [String.append_assoc] using hlabels)⟩
    · simp only [announce, Act.store, Act.ofExcept, bind, EStateM.bind, hmine, String.append_assoc]
      rfl
    · simp only [announce, Act.store, Act.ofExcept, bind, EStateM.bind, htheirs,
        hwalkers.reverse, String.append_assoc]
      rfl

/-- Both walks deal with the root alike. -/
theorem Alike.start_beside {tree : Value} (htree : tree.Plays later .node) :
    Beside Fault.Alike (Both Step.Sound) later (walker.start tree first)
      (rival.start tree second) := by
  rcases hwalkers.announce_cases hworlds htree with
    ⟨fault, hmine, htheirs⟩ | ⟨message, another, hannounce, hother, hopened⟩
  · rw [start_announce_fails walker hmine, start_announce_fails rival htheirs]
    exact .error (List.prefix_refl _) hworlds (.same _)
  have hone := @one_beside _ _ _ _ _ hwalkers _ _ hopened hlater { node := tree } []
    ⟨htree, trivial⟩ (by simp)
  generalize hmine : walker.one _ [] _ = mine at hone
  generalize htheirs : rival.one _ [] _ = theirs at hone
  cases hone with
  | error hmore hboth hfaults =>
    rw [start_fails walker hannounce hmine, start_fails rival hother htheirs]
    exact .error hmore hboth hfaults
  | @ok last directive other _ _ hmore hboth hresults =>
    obtain ⟨rfl, _⟩ := hresults
    by_cases hexit : other.action = .action .exit
    · rw [start_exits walker hannounce hmine hexit, start_exits rival hother htheirs hexit]
      exact .ok hmore (hboth.told (.same _)) ⟨rfl, trivial⟩
    · rw [start_enters walker hannounce hmine hexit, start_enters rival hother htheirs hexit]
      have hsound : (⟨[], [], 1⟩ : Descent).Sound last := ⟨by simp, by simp⟩
      exact (hwalkers.enter_beside hboth hsound (htree.mono hmore) other).goes_on.earlier hmore

end Nodes

section Runs

variable {roles : List Role} {walker rival : Walker σ} (hwalkers : Alike roles walker rival)

include hwalkers

/-- Walks that are alike stay so for any number of turns. -/
theorem Alike.after_alike {later : List Role} (hlater : roles <+: later) {turns : Nat}
    {descent : Descent} (hsound : descent.Sound later) {first second : World σ}
    (hworlds : first.Twins later second) :
    Option.Rel (Stage.Abreast Eq World.Alike) (walker.after turns ⟨descent, first⟩)
      (rival.after turns ⟨descent, second⟩) := by
  induction turns generalizing later descent first second with
  | zero => exact .some ⟨rfl, hworlds.alike⟩
  | succ turns ih =>
    have hturn := hwalkers.step_beside hworlds hlater hsound
    unfold after
    dsimp only
    generalize walker.step descent first = mine at hturn ⊢
    generalize rival.step descent second = theirs at hturn ⊢
    cases hturn with
    | error hmore hboth hfaults => exact .none
    | @ok last step other _ _ hmore hboth hresults =>
      obtain ⟨rfl, hnext⟩ := hresults
      cases other with
      | done ending => exact .none
      | more next => exact ih (hlater.trans hmore) hnext hboth

/-- They end after as many turns, and alike, or neither ends. -/
theorem Alike.run_alike {later : List Role} (hlater : roles <+: later) {fuel : Nat} {step : Step}
    (hsound : step.Sound later) {first second : World σ} (hworlds : first.Twins later second) :
    Option.Rel (Abreast World.Alike Fault.Alike Eq) (walker.run fuel step first)
      (rival.run fuel step second) := by
  induction fuel generalizing later step first second with
  | zero =>
    cases step with
    | done ending => exact .some (.ok rfl hworlds.alike)
    | more descent => exact .none
  | succ fuel ih =>
    cases step with
    | done ending => exact .some (.ok rfl hworlds.alike)
    | more descent =>
      have hturn := hwalkers.step_beside hworlds hlater hsound
      unfold run
      generalize walker.step descent first = mine at hturn ⊢
      generalize rival.step descent second = theirs at hturn ⊢
      cases hturn with
      | error hmore hboth hfaults => exact .some (.error hfaults hboth.alike)
      | ok hmore hboth hresults =>
        obtain ⟨rfl, hnext⟩ := hresults
        exact ih (hlater.trans hmore) hnext hboth

variable {later : List Role} (hlater : roles <+: later) {tree : Value}
  (htree : tree.Plays later .node) {first second : World σ} (hworlds : first.Twins later second)

include hlater htree hworlds

theorem Alike.stageAt_alike (turns : Nat) :
    Option.Rel (Stage.Abreast Eq World.Alike) (walker.stageAt tree first turns)
      (rival.stageAt tree second turns) := by
  have hstart := hwalkers.start_beside hworlds hlater htree
  unfold stageAt
  generalize walker.start tree first = mine at hstart ⊢
  generalize rival.start tree second = theirs at hstart ⊢
  cases hstart with
  | error hmore hboth hfaults => exact .none
  | @ok last step other _ _ hmore hboth hresults =>
    obtain ⟨rfl, hsound⟩ := hresults
    cases other with
    | done ending => exact .none
    | more descent => exact hwalkers.after_alike (hlater.trans hmore) hsound hboth

theorem Alike.walk_alike (fuel : Nat) :
    Option.Rel (Abreast World.Alike Fault.Alike Eq) (walker.walk fuel tree first)
      (rival.walk fuel tree second) := by
  have hstart := hwalkers.start_beside hworlds hlater htree
  unfold walk
  generalize walker.start tree first = mine at hstart ⊢
  generalize rival.start tree second = theirs at hstart ⊢
  cases hstart with
  | error hmore hboth hfaults => exact .some (.error hfaults hboth.alike)
  | ok hmore hboth hresults =>
    obtain ⟨rfl, hsound⟩ := hresults
    exact hwalkers.run_alike (hlater.trans hmore) hsound hboth

end Runs

end Walker

/-- A request asks for the same walk in both forms of a tree, if its test does
    not look at children. -/
theorem Request.walker_alike {roles : List Role} {host rival : Host σ}
    (hhosts : Corresponds roles host rival) {check : Check} (hkeys : ∀ key ∈ check.keys, key.isShared = true)
    (hmade : check.IsMade roles) (test : Value) (visitor : Nat) (reverse : Bool) (manner : Manner)
    (annotate : Bool) :
    Walker.Alike roles
      ((⟨test, .function visitor, reverse⟩ : Request).walker host manner annotate check)
      ((⟨test, .function visitor, reverse⟩ : Request).walker rival manner annotate check) where
  check := by
    intro later place hlater hplace
    exact Check.test_tracks (hhosts.mono hlater) hplace check hkeys fun value hvalue =>
      (hmade value hvalue).mono hlater
  visit := by
    intro later place lineage hlater hplace hlineage
    show Tracks _ _ (callVisitor host manner (.function visitor) place lineage)
      (callVisitor rival manner (.function visitor) place lineage)
    unfold callVisitor
    dsimp only
    cases manner with
    | lineage =>
      exact Tracks.call (hhosts.mono hlater) visitor
        (List.forall_mem_cons.mpr ⟨hplace.1, hlineage⟩)
    | place =>
      exact Tracks.call (hhosts.mono hlater) visitor
        (List.forall_mem_cons.mpr ⟨hplace.1, List.forall_mem_singleton.mpr hplace.2⟩)
  reverse := rfl
  annotate := rfl

/-- A pattern for nodes with a property that is null, and a test for such nodes
    and for leaves. -/
def hedge : Store :=
  ⟨#[.mapping [("n", .null)], .list [.text "leaf", .cell ⟨0⟩]]⟩

/-- A node without a type, and a leaf below it. -/
def hedgerow : Datum :=
  .mapping [("children", .list [.mapping [("type", .text "leaf")], .null])]

/-- Puts a new node beside the first node that it meets, and fails at the next. -/
def gardener : Conduct Nat := fun _ _ _ calls =>
  if calls = 0 then
    { mutations := [.arrange ⟨0, []⟩ [.standing ⟨0, [0]⟩,
        .fresh (.mapping [("n", .null), ("children", .list [.mapping []])])]]
      reply := .data .null
      user := 1 }
  else { mutations := [], reply := .failure Walker.boom, user := calls + 1 }

/-- The visit of the hedgerow in one of its forms. -/
def gardened (elements : Bool) : Option (Walker.Outcome Nat) :=
  let (root, store) := hedgerow.build hedge
  visit (gardener.host elements root) .place ⟨.cell ⟨1⟩, .function 0, .bool false⟩ true 6 root
    ⟨if elements then store.toElements root else store, [], 0⟩

/-- A pattern for nodes to which there are no weak references. -/
def sprig : Store :=
  ⟨#[.mapping [("__weakref__", .null)]]⟩

/-- A node without children. -/
def bush : Datum :=
  .mapping [("type", .text "bush")]

/-- A caller that looks on. -/
def onlooker : Conduct Unit := fun _ _ _ _ => { mutations := [], reply := .data .null, user := () }

/-- The visit of the bush in one of its forms. -/
def bushVisited (elements : Bool) : Option (Walker.Outcome Unit) :=
  let (root, store) := bush.build sprig
  visit (onlooker.host elements root) .place ⟨.cell ⟨0⟩, .function 0, .bool false⟩ false 1 root
    ⟨if elements then store.toElements root else store, [], ()⟩

end Lineage
