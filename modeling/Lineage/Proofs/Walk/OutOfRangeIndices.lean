import Lineage.Proofs.Walk.LevelEnds
import Lineage.Proofs.Walk.NoFailure
import Lineage.Proofs.Walk.Reversal
import Mathlib.Data.List.Forall2

namespace Lineage

variable {σ τ : Type}

namespace Store

/-- In a store, what is reached from a node in a first one has the same children,
    and those that are lists have the same members. -/
structure Shows (base : Store) (tree : Value) (store : Store) : Prop where
  children : ∀ node, base.Reaches tree node → store.children node = base.children node
  lists : ∀ node, base.Reaches tree node → ∀ items,
    base.cell? (base.children node) = some (.list items) →
      store.cell? (base.children node) = some (.list items)

/-- A place and ancestors with which a node of a tree may come up in a walk: the
    root without any, or a node that stands in the list of its parent's children,
    with the parent and others that are reached for its ancestors. -/
inductive Poses (base : Store) (tree : Value) : Place → List Value → Prop where
  | root : Poses base tree { node := tree } []
  | child {node index parent : Value} {items above : List Value} {n : Nat}
      (hparent : base.Reaches tree parent)
      (hlist : base.cell? (base.children parent) = some (.list items))
      (hindex : index.position? = some (n : Int)) (hchild : items[n]? = some node)
      (hnode : node ≠ .null) (habove : ∀ other ∈ above, base.Reaches tree other) :
      Poses base tree ⟨node, index, parent⟩ (parent :: above)

section Shows

variable {base store : Store} {tree node : Value} {items : List Value}
  (hshows : base.Shows tree store) (hreaches : base.Reaches tree node)
  (hlist : base.cell? (base.children node) = some (.list items))

include hshows hreaches hlist

theorem Shows.list : store.cell? (store.children node) = some (.list items) := by
  rw [hshows.children node hreaches]
  exact hshows.lists node hreaches items hlist

/-- Where an index points to none of the children, no child is found. -/
theorem Shows.childAt_outside {index : Value} {place : Int}
    (hplace : index.position? = some place) (houtside : ¬ (0 ≤ place ∧ place < items.length)) :
    store.childAt (store.children node) index = .ok none := by
  have hshown := hshows.list hreaches hlist
  rw [childAt_of_position hshown hplace]
  exact childAt_list_outside hshown houtside

/-- A child that is found comes up below its parent. -/
theorem Shows.poses {child index : Value} {above : List Value}
    (hchild : store.childAt (store.children node) index = .ok (some child)) (hnode : child ≠ .null)
    (habove : ∀ other ∈ above, base.Reaches tree other) :
    base.Poses tree ⟨child, index, node⟩ (node :: above) := by
  obtain ⟨n, hindex, hn, rfl⟩ := inside_of_childAt_list (hshows.list hreaches hlist) hchild
  exact .child hreaches hlist hindex (List.getElem?_eq_getElem hn) hnode habove

end Shows

/-- The node that comes up at a place is reached, and so are its ancestors. -/
theorem Poses.reaches {base : Store} {tree : Value} {place : Place} {lineage : List Value}
    (hposes : base.Poses tree place lineage) :
    ∀ node ∈ place.node :: lineage, base.Reaches tree node := by
  cases hposes with
  | root => simpa using Reaches.here
  | child hparent hlist _ hchild _ habove =>
    exact List.forall_mem_cons.mpr ⟨hparent.down hlist (List.mem_of_getElem? hchild),
      List.forall_mem_cons.mpr ⟨hparent, habove⟩⟩

/-- All that a cursor finds in a list depends on the members, and a failure on
    the kind of the cursor. -/
theorem childAt_congr {store other : Store} {list rival cursor : Value} {items : List Value}
    (hlist : store.cell? list = some (.list items))
    (hrival : other.cell? rival = some (.list items))
    (hkind : other.kind cursor = store.kind cursor) :
    other.childAt rival cursor = store.childAt list cursor := by
  have hkinds : ∀ {store : Store} {list : Value}, store.cell? list = some (.list items) →
      store.kind list = .list := by
    intro store list hlist
    cases list with
    | scalar s => cases hlist
    | function f => cases hlist
    | cell ref =>
      show ((store.get? ref).map Cell.kind).getD .null = _
      rw [show store.get? ref = some (.list items) from hlist]
      rfl
  have hfrom : other.isFromStart cursor = store.isFromStart cursor := by
    unfold isFromStart
    rw [hkind]
  have hmember : other.memberAt rival cursor = store.memberAt list cursor := by
    unfold memberAt
    rw [members?_list hlist, members?_list hrival, hkinds hlist, hkinds hrival, hkind]
    cases cursor.position? <;> rfl
  simp only [childAt, ne_null_of_list hlist, ne_null_of_list hrival, hfrom, hmember,
    lengthOf_list hlist, lengthOf_list hrival]

end Store

/-- Two indices that come to the same among so many children: they are one index
    that is settled, or both are whole numbers that point to none of the
    children. -/
inductive Value.SameAmong (settled : Value → Prop) (count : Nat) (index other : Value) : Prop where
  | same (hsame : other = index) (hsettled : settled index)
  | outside {place rival : Int} (hplace : index.position? = some place)
      (hrival : other.position? = some rival) (houtside : ¬ (0 ≤ place ∧ place < count))
      (hother : ¬ (0 ≤ rival ∧ rival < count))

namespace Walker

section Pairs

variable (paired : Store × σ → Store × τ → Prop)

/-- A value of the same kind in all stores that are paired, as every value is
    that is no cell. -/
def Settled (value : Value) : Prop :=
  ∀ first second, paired first second → second.1.kind value = first.1.kind value

/-- Two worlds whose states are paired and that tell of the same calls. -/
structure InStep (first : World σ) (second : World τ) : Prop where
  states : paired (first.store, first.user) (second.store, second.user)
  calls : callsIn second.journal = callsIn first.journal

/-- Two directives for a node: the actions are the same, and so are the indices,
    but for those that point to none of the siblings. The root has no siblings,
    so that there is nothing to point to. -/
structure AsksAlike (base : Store) (place : Place) (directive other : Directive) : Prop where
  action : other.action = directive.action
  index : place.index ≠ .null → ∀ items,
    base.cell? (base.children place.parent) = some (.list items) →
      Value.SameAmong (Settled paired) items.length directive.index other.index

/-- At a node two checks and two visitors do alike in worlds that are in step,
    and leave such worlds. The visitors' answers may differ in indices that point
    to none of the siblings. -/
structure Agrees (walker : Walker σ) (other : Walker τ) (base : Store) (place : Place)
    (lineage : List Value) : Prop where
  check : ∀ first second, InStep paired first second →
    Abreast (InStep paired) Eq Eq (walker.check place first) (other.check place second)
  visit : ∀ first second, InStep paired first second →
    Abreast (InStep paired) Eq (AsksAlike paired base place)
      ((walker.visit place lineage >>= Directive.ofAnswer) first)
      ((other.visit place lineage >>= Directive.ofAnswer) second)

/-- Two levels at the children of one node, with cursors that come to the same. -/
structure SameLevel (base : Store) (tree : Value) (frame other : Frame) : Prop where
  reaches : base.Reaches tree frame.parent
  parent : other.parent = frame.parent
  cursor : ∃ items, base.cell? (base.children frame.parent) = some (.list items) ∧
    Value.SameAmong (Settled paired) items.length frame.cursor other.cursor

/-- Two walks at the same levels. -/
structure SameLevels (base : Store) (tree : Value) (descent other : Descent) : Prop where
  frames : List.Forall₂ (SameLevel paired base tree) descent.frames other.frames
  parents : descent.frames.map Frame.parent = descent.lineage
  lineage : other.lineage = descent.lineage
  walked : other.walked = descent.walked

end Pairs

section Step

variable {paired : Store × σ → Store × τ → Prop} {base : Store} {tree : Value}
  {first : World σ} {second : World τ}

theorem InStep.record (hworlds : InStep paired first second) (entry : Entry) :
    InStep paired { first with journal := entry :: first.journal }
      { second with journal := entry :: second.journal } where
  states := hworlds.states
  calls := by
    have hcalls := hworlds.calls
    cases entry <;> simp_all [callsIn]

theorem InStep.told (hworlds : InStep paired first second) (message other : String) :
    InStep paired (first.told message) (second.told other) where
  states := hworlds.states
  calls := by rw [callsIn_told, callsIn_told, hworlds.calls]

theorem settled_scalar (s : Scalar) : Settled paired (.scalar s) :=
  fun _ _ _ => rfl

theorem Settled.moved {cursor : Value} (hsettled : Settled paired cursor) (places : Int) :
    Settled paired (cursor.moved places) := by
  unfold Value.moved
  split
  · exact settled_scalar _
  · exact hsettled

theorem reaches_of_mem {frames rivals : List Frame}
    (hframes : List.Forall₂ (SameLevel paired base tree) frames rivals) :
    ∀ frame ∈ frames, base.Reaches tree frame.parent := by
  induction hframes with
  | nil => simp
  | cons hlevel _ ih => exact List.forall_mem_cons.mpr ⟨hlevel.reaches, ih⟩

/-- Directives that ask for nothing ask alike. -/
theorem asksAlike_empty (place : Place) : AsksAlike paired base place {} {} where
  action := rfl
  index := fun _ _ _ => .same rfl (settled_scalar .null)

section Node

variable {walker : Walker σ} {other : Walker τ} {place : Place} {lineage : List Value}
  (hagrees : Agrees paired walker other base place lineage)
  (hworlds : InStep paired first second)

include hagrees hworlds

theorem Agrees.consult_abreast :
    Abreast (InStep paired) Eq (AsksAlike paired base place)
      (walker.consult place lineage first) (other.consult place lineage second) := by
  have hcheck := hagrees.check _ _ (hworlds.record (.offered place))
  simp only [consult, Act.record, bind, EStateM.bind]
  generalize walker.check place _ = mine at hcheck ⊢
  generalize other.check place _ = theirs at hcheck ⊢
  cases hcheck with
  | error hfaults hlater => exact .error hfaults hlater
  | @ok verdict _ _ _ hverdict hlater =>
    subst hverdict
    cases verdict with
    | false => exact .ok (asksAlike_empty place) hlater
    | true => exact hagrees.visit _ _ (hlater.record (.visited place lineage))

/-- A node is dealt with alike in both walks, also where it fails. -/
theorem Agrees.one_abreast (hannotate : other.annotate = walker.annotate)
    (hlabels : walker.annotate = true → ∀ mine theirs, paired mine theirs →
      ∀ node ∈ place.node :: lineage, mine.1.DescribesAlike theirs.1 node) :
    Abreast (InStep paired) Eq (AsksAlike paired base place)
      (walker.one place lineage first) (other.one place lineage second) := by
  have hconsult := hagrees.consult_abreast hworlds
  unfold one
  rw [hannotate]
  by_cases hannotates : walker.annotate = true
  · simp only [hannotates, if_true, Act.rescue]
    generalize walker.consult place lineage first = mine at hconsult ⊢
    generalize other.consult place lineage second = theirs at hconsult ⊢
    cases hconsult with
    | ok hasks hlater => exact .ok hasks hlater
    | @error fault _ _ _ hfaults hlater =>
      subst hfaults
      exact .error (located_congr (hlabels hannotates _ _ hlater.states) fault).symm hlater
  · rw [if_neg hannotates, if_neg hannotates]
    exact hconsult

end Node

end Step

/-- What two walks are made of that agree on all but what overshoots: the same
    direction and annotation, an orderly tree that their stores show, whose labels
    can be written in both or in neither and, if failures are annotated, are the
    same, and agreement wherever a node may come up. -/
structure Rivals (paired : Store × σ → Store × τ → Prop) (walker : Walker σ) (other : Walker τ)
    (base : Store) (tree : Value) : Prop where
  reverse : other.reverse = walker.reverse
  annotate : other.annotate = walker.annotate
  orderly : base.Orderly tree
  shows : ∀ mine theirs, paired mine theirs → base.Shows tree mine.1 ∧ base.Shows tree theirs.1
  heads : ∀ mine theirs, paired mine theirs → ∀ node, base.Reaches tree node →
    theirs.1.unwritable? (theirs.1.head node) = mine.1.unwritable? (mine.1.head node)
  labels : walker.annotate = true → ∀ mine theirs, paired mine theirs →
    ∀ node, base.Reaches tree node → mine.1.DescribesAlike theirs.1 node
  agrees : ∀ place lineage, base.Poses tree place lineage →
    Agrees paired walker other base place lineage

section Turns

variable {paired : Store × σ → Store × τ → Prop} {walker : Walker σ} {other : Walker τ}
  {base : Store} {tree : Value} {first : World σ} {second : World τ}
  (hrivals : Rivals paired walker other base tree) (hworlds : InStep paired first second)

include hrivals

theorem Rivals.stride_eq : other.stride = walker.stride := by
  rw [stride, stride, hrivals.reverse]

theorem Rivals.startOf_eq (store : Store) (children : Value) :
    other.startOf store children = walker.startOf store children := by
  rw [startOf, startOf, hrivals.reverse]

/-- The cursor moves alike after a node whose own place is the same in both
    walks. -/
theorem Rivals.sameAmong_cursorAfter {count : Nat} {cursor index rival : Value}
    (hcursor : Settled paired cursor)
    (hindex : Value.SameAmong (Settled paired) count index rival) :
    Value.SameAmong (Settled paired) count (walker.cursorAfter cursor index)
      (other.cursorAfter cursor rival) := by
  cases hindex with
  | same hsame hsettled =>
    subst hsame
    unfold cursorAfter
    rw [hrivals.stride_eq]
    split
    · exact .same rfl (hcursor.moved walker.stride)
    · exact .same rfl hsettled
  | outside hplace hrival houtside hother =>
    have hnull : ∀ {index : Value} {place : Int}, index.position? = some place → index ≠ .null := by
      rintro _ _ hplace rfl
      cases hplace
    rw [cursorAfter, cursorAfter, if_neg (hnull hplace), if_neg (hnull hrival)]
    exact .outside hplace hrival houtside hother

include hworlds

/-- A node is entered by both walks or by neither. -/
theorem Rivals.enter_abreast {descent rival : Descent}
    (hdescents : SameLevels paired base tree descent rival) {node : Value}
    (hreaches : base.Reaches tree node) {directive asked : Directive}
    (haction : asked.action = directive.action) :
    ∃ next reply, walker.enter descent node directive first = .ok next first ∧
      other.enter rival node asked second = .ok reply second ∧
      SameLevels paired base tree next reply := by
  obtain ⟨hfirst, hsecond⟩ := hrivals.shows _ _ hworlds.states
  have hmine : first.store.children node = base.children node := hfirst.children node hreaches
  have htheirs : second.store.children node = base.children node := hsecond.children node hreaches
  by_cases hstay : base.children node = .null ∨ directive.action = .action .skip
  · refine ⟨descent, rival, enter_stays walker _ _ _ _ (by rwa [hmine]),
      enter_stays other _ _ _ _ (by rwa [htheirs, haction]), hdescents⟩
  · rcases hrivals.orderly node hreaches with hnull | ⟨items, hlist⟩
    · exact (hstay (.inl hnull)).elim
    · refine ⟨_, _,
        enter_descends walker descent node directive first (by rwa [hmine])
          (startOf_list (hfirst.list hreaches hlist)),
        enter_descends other rival node asked second (by rwa [htheirs, haction])
          ((hrivals.startOf_eq _ _).trans (startOf_list (hsecond.list hreaches hlist))), ?_⟩
      refine ⟨.cons ⟨hreaches, rfl, items, hlist, .same rfl (settled_scalar _)⟩ hdescents.frames,
        ?_, ?_, hdescents.walked⟩
      · rw [List.map_cons, hdescents.parents]
      · exact congrArg (node :: ·) hdescents.lineage

theorem Rivals.one_abreast {place : Place} {lineage : List Value}
    (hposes : base.Poses tree place lineage) :
    Abreast (InStep paired) Eq (AsksAlike paired base place)
      (walker.one place lineage first) (other.one place lineage second) := by
  refine (hrivals.agrees place lineage hposes).one_abreast hworlds hrivals.annotate ?_
  intro hannotates mine theirs hpaired node hmem
  exact hrivals.labels hannotates mine theirs hpaired node (hposes.reaches node hmem)

/-- A child is dealt with alike, and whatever its indices the level goes on with
    cursors that come to the same. -/
theorem Rivals.child_abreast {cursor parent child : Value} {items : List Value}
    {outer rivals : List Frame} (walked : Nat)
    (hreaches : base.Reaches tree parent)
    (hlist : base.cell? (base.children parent) = some (.list items))
    (hsettled : Settled paired cursor) (hnode : child ≠ .null)
    (hmine : first.store.childAt (first.store.children parent) cursor = .ok (some child))
    (htheirs : second.store.childAt (second.store.children parent) cursor = .ok (some child))
    (houter : List.Forall₂ (SameLevel paired base tree) outer rivals) :
    Abreast (InStep paired) Eq (Step.Abreast (SameLevels paired base tree))
      (walker.step ⟨⟨parent, cursor⟩ :: outer, parent :: outer.map Frame.parent, walked⟩ first)
      (other.step ⟨⟨parent, cursor⟩ :: rivals, parent :: outer.map Frame.parent, walked⟩
        second) := by
  have hposes := (hrivals.shows _ _ hworlds.states).1.poses hreaches hlist hmine hnode
    (List.forall_mem_map.mpr (reaches_of_mem houter))
  have hdown : base.Reaches tree child := hposes.reaches child List.mem_cons_self
  have hindex : cursor ≠ .null := by
    rintro rfl
    obtain ⟨_, hplace, _⟩ := Store.inside_of_childAt_list
      ((hrivals.shows _ _ hworlds.states).1.list hreaches hlist) hmine
    cases hplace
  have hone := hrivals.one_abreast hworlds hposes
  generalize hfirst : walker.one _ _ first = mine at hone
  generalize hsecond : other.one _ _ second = theirs at hone
  cases hone with
  | error hfaults hlater =>
    rw [step_child_fails walker hnode hmine hfirst, step_child_fails other hnode htheirs hsecond]
    exact .error hfaults hlater
  | @ok directive asked _ _ hasks hlater =>
    by_cases hexit : directive.action = .action .exit
    · rw [step_child_leaves walker hnode hmine hfirst hexit,
        step_child_leaves other hnode htheirs hsecond (hasks.action.trans hexit)]
      exact leave_abreast (fun _ _ => hlater.told _ _) hlater
        (hrivals.heads _ _ hlater.states child hdown) _ _
    · have hmoved : SameLevels paired base tree
          ⟨⟨parent, walker.cursorAfter cursor directive.index⟩ :: outer,
            parent :: outer.map Frame.parent, walked + 1⟩
          ⟨⟨parent, other.cursorAfter cursor asked.index⟩ :: rivals,
            parent :: outer.map Frame.parent, walked + 1⟩ :=
        ⟨.cons ⟨hreaches, rfl, items, hlist,
          hrivals.sameAmong_cursorAfter hsettled (hasks.index hindex items hlist)⟩ houter,
          rfl, rfl, rfl⟩
      obtain ⟨next, reply, hnext, hreply, hsame⟩ :=
        hrivals.enter_abreast hlater hmoved hdown hasks.action
      rw [step_child_goes_on walker hnode hmine hfirst hexit hnext,
        step_child_goes_on other hnode htheirs hsecond (hasks.action ▸ hexit) hreply]
      exact .ok (.more hsame) hlater

/-- A turn is made alike: where the cursors differ, neither points to a child,
    and both walks leave the level. -/
theorem Rivals.step_abreast {descent rival : Descent}
    (hdescents : SameLevels paired base tree descent rival) :
    Abreast (InStep paired) Eq (Step.Abreast (SameLevels paired base tree))
      (walker.step descent first) (other.step rival second) := by
  obtain ⟨frames, _, _⟩ := descent
  obtain ⟨rivals, _, walked⟩ := rival
  obtain ⟨hframes, hparents, hlineage, hwalked⟩ := hdescents
  simp only at hframes hparents hlineage hwalked
  subst hparents hlineage hwalked
  cases hframes with
  | nil => exact .ok (.done .finished) (hworlds.told _ _)
  | @cons frame level outer rivals hlevel houter =>
    obtain ⟨_, cursor⟩ := frame
    obtain ⟨parent, reply⟩ := level
    obtain ⟨hreaches, rfl, items, hlist, hcursor⟩ := hlevel
    obtain ⟨hfirst, hsecond⟩ := hrivals.shows _ _ hworlds.states
    have hleft : SameLevels paired base tree ⟨outer, outer.map Frame.parent, walked⟩
        ⟨rivals, outer.map Frame.parent, walked⟩ := ⟨houter, rfl, rfl, rfl⟩
    cases hcursor with
    | outside hplace hrival houtside hother =>
      have hmine : first.store.childAt (first.store.children parent) cursor = .ok none :=
        hfirst.childAt_outside hreaches hlist hplace houtside
      have htheirs : second.store.childAt (second.store.children parent) reply = .ok none :=
        hsecond.childAt_outside hreaches hlist hrival hother
      rw [step_leaves walker hmine, step_leaves other htheirs]
      exact .ok (.more hleft) hworlds
    | same hsame hsettled =>
      simp only at hsame
      subst hsame
      have hchild := Store.childAt_congr (hfirst.list hreaches hlist) (hsecond.list hreaches hlist)
        (hsettled _ _ hworlds.states)
      rcases hfound : first.store.childAt (first.store.children parent) reply with fault | child
      · rw [step_fails walker hfound, step_fails other (hchild.trans hfound)]
        exact .error rfl hworlds
      · rw [hfound] at hchild
        cases child with
        | none =>
          rw [step_leaves walker hfound, step_leaves other hchild]
          exact .ok (.more hleft) hworlds
        | some child =>
          by_cases hnode : child = .null
          · subst hnode
            rw [step_passes walker hfound, step_passes other hchild, hrivals.stride_eq]
            exact .ok (.more ⟨.cons ⟨hreaches, rfl, items, hlist,
              .same rfl (hsettled.moved walker.stride)⟩ houter, rfl, rfl, rfl⟩) hworlds
          · exact hrivals.child_abreast hworlds walked hreaches hlist hsettled hnode hfound hchild
              houter

/-- Both walks deal with the root alike, and neither looks at an index answered
    there. -/
theorem Rivals.start_abreast :
    Abreast (InStep paired) Eq (Step.Abreast (SameLevels paired base tree))
      (walker.start tree first) (other.start tree second) := by
  have hboth := announce_abreast (fun _ _ => hworlds.told _ _) hworlds
    (hrivals.heads _ _ hworlds.states tree .here) walker other
  generalize hannounce : walker.announce tree first = opening at hboth
  generalize hother : other.announce tree second = reply at hboth
  cases hboth with
  | error hfaults hworlds =>
    rw [start_announce_fails walker hannounce, start_announce_fails other hother]
    exact .error hfaults hworlds
  | ok _ hopened =>
    have hone := hrivals.one_abreast hopened .root
    generalize hmine : walker.one _ [] _ = mine at hone
    generalize hrival : other.one _ [] _ = rival at hone
    cases hone with
    | error hfaults hlater =>
      rw [start_fails walker hannounce hmine, start_fails other hother hrival]
      exact .error hfaults hlater
    | @ok directive asked _ _ hasks hlater =>
      by_cases hexit : directive.action = .action .exit
      · rw [start_exits walker hannounce hmine hexit,
          start_exits other hother hrival (hasks.action.trans hexit)]
        exact .ok (.done .exited) (hlater.told _ _)
      · have hempty : SameLevels paired base tree ⟨[], [], 1⟩ ⟨[], [], 1⟩ := ⟨.nil, rfl, rfl, rfl⟩
        obtain ⟨next, reply, hnext, hreply, hsame⟩ :=
          hrivals.enter_abreast hlater hempty .here hasks.action
        rw [start_goes_on walker hannounce hmine hexit hnext,
          start_goes_on other hother hrival (hasks.action ▸ hexit) hreply]
        exact .ok (.more hsame) hlater

end Turns

section Symmetry

variable {paired : Store × σ → Store × τ → Prop}

theorem Settled.symm {value : Value} (hsettled : Settled paired value) :
    Settled (flip paired) value :=
  fun first second hpaired => (hsettled second first hpaired).symm

theorem sameAmong_symm {count : Nat} {index other : Value}
    (hsame : Value.SameAmong (Settled paired) count index other) :
    Value.SameAmong (Settled (flip paired)) count other index := by
  cases hsame with
  | same hsame hsettled =>
    subst hsame
    exact .same rfl hsettled.symm
  | outside hplace hrival houtside hother => exact .outside hrival hplace hother houtside

theorem InStep.symm {first : World σ} {second : World τ} (hworlds : InStep paired first second) :
    InStep (flip paired) second first :=
  ⟨hworlds.states, hworlds.calls.symm⟩

theorem AsksAlike.symm {base : Store} {place : Place} {directive other : Directive}
    (hasks : AsksAlike paired base place directive other) :
    AsksAlike (flip paired) base place other directive :=
  ⟨hasks.action.symm, fun hindex items hlist => sameAmong_symm (hasks.index hindex items hlist)⟩

theorem Agrees.symm {walker : Walker σ} {other : Walker τ} {base : Store} {place : Place}
    {lineage : List Value} (hagrees : Agrees paired walker other base place lineage) :
    Agrees (flip paired) other walker base place lineage where
  check := fun first second hworlds =>
    (hagrees.check second first hworlds.symm).symm (fun _ _ => .symm) fun _ _ => .symm
  visit := fun first second hworlds =>
    (hagrees.visit second first hworlds.symm).symm (fun _ _ => .symm) fun _ _ => .symm

/-- Of two walks that are rivals either may come first. -/
theorem Rivals.symm {walker : Walker σ} {other : Walker τ} {base : Store} {tree : Value}
    (hrivals : Rivals paired walker other base tree) :
    Rivals (flip paired) other walker base tree where
  reverse := hrivals.reverse.symm
  annotate := hrivals.annotate.symm
  orderly := hrivals.orderly
  shows := fun mine theirs hpaired => (hrivals.shows theirs mine hpaired).symm
  heads := fun mine theirs hpaired node hreaches =>
    (hrivals.heads theirs mine hpaired node hreaches).symm
  labels := fun hannotates mine theirs hpaired node hreaches =>
    (hrivals.labels (hrivals.annotate ▸ hannotates) theirs mine hpaired node hreaches).symm
  agrees := fun place lineage hposes => (hrivals.agrees place lineage hposes).symm

end Symmetry

section Levels

variable (walker : Walker σ) (tree : Value) (world : World σ)

/-- What comes of a child whose directive does not end the walk and gives an
    index that points to none of its siblings. The child is entered like any
    other. From then on the walk is within the level, in the child or at the
    level itself, until it gets to the levels outside. At the level no further
    sibling is met, and the turn does nothing but leave it. Outside is what the
    parent was gone into from, with the cursor moved as the parent's own
    directive said. -/
structure EndsLevel (turns : Nat) (place : Place) (directive : Directive) (later : World σ)
    (outer : List Frame) : Prop where
  cursor : walker.cursorAfter place.index directive.index = directive.index
  entered : ∃ stage, walker.stageAt tree world (turns + 1) = some stage ∧ stage.world = later ∧
    walker.Entered later.store place directive outer stage.descent.frames
  within : ∀ more stage, walker.stageAt tree world (turns + 1 + more) = some stage →
    Within place.node ⟨place.parent, directive.index⟩ outer stage.descent.frames ∨
      ∃ less left, less ≤ more ∧ walker.stageAt tree world (turns + 1 + less) = some left ∧
        left.descent.frames = outer
  silent : ∀ more stage, walker.stageAt tree world (turns + 1 + more) = some stage →
    stage.descent.frames = ⟨place.parent, directive.index⟩ :: outer →
      stage.meeting? = none ∧
      walker.step stage.descent stage.world =
        .ok (.more ⟨outer, stage.descent.lineage.tail, stage.descent.walked⟩) stage.world
  outside : (outer = [] ∧ place.parent = tree) ∨
    walker.WentInto tree world turns place.parent outer

/-- Whenever a walk meets a child and is given an index that points to none of
    the siblings, it ends there if it is told so, or else the level does. -/
def OvershotLevelsEnd (base : Store) : Prop :=
  ∀ turns stage place directive later items overshoot,
    walker.stageAt tree world turns = some stage → stage.meeting? = some place →
    walker.one place stage.descent.lineage stage.world = .ok directive later →
    base.cell? (base.children place.parent) = some (.list items) →
    directive.index.position? = some overshoot →
    ¬ (0 ≤ overshoot ∧ overshoot < items.length) →
      ∃ outer, stage.descent.frames = ⟨place.parent, place.index⟩ :: outer ∧
        ((directive.action = .action .exit ∧
            EndsAt place.node later (walker.step stage.descent stage.world)) ∨
          (directive.action ≠ .action .exit ∧
            walker.EndsLevel tree world turns place directive later outer))

end Levels

section Main

variable {paired : Store × σ → Store × τ → Prop} {walker : Walker σ} {other : Walker τ}
  {base : Store} {tree : Value} {first : World σ} {second : World τ}
  (hrivals : Rivals paired walker other base tree) (hworlds : InStep paired first second)

include hrivals hworlds

/-- Rivals are at the same levels after any number of turns. -/
theorem Rivals.stages_abreast (turns : Nat) :
    Option.Rel (Stage.Abreast (SameLevels paired base tree) (InStep paired))
      (walker.stageAt tree first turns) (other.stageAt tree second turns) :=
  stageAt_abreast (fun _ _ _ _ hdescents hlater => hrivals.step_abreast hlater hdescents)
    (hrivals.start_abreast hworlds) turns

/-- At every stage of a walk the store shows the tree, and the levels are at
    nodes of it. -/
theorem Rivals.shows_stage {turns : Nat} {stage : Stage σ}
    (hstage : walker.stageAt tree first turns = some stage) :
    ∃ rival, InStep paired stage.world rival ∧ base.Shows tree stage.world.store ∧
      ∀ frame ∈ stage.descent.frames, base.Reaches tree frame.parent := by
  have hrel := hrivals.stages_abreast hworlds turns
  rw [hstage] at hrel
  generalize other.stageAt tree second turns = reply at hrel
  cases hrel with
  | @some _ rival hboth =>
    exact ⟨rival.world, hboth.2, (hrivals.shows _ _ hboth.2.states).1,
      reaches_of_mem hboth.1.frames⟩

section Meeting

variable {turns : Nat} {stage : Stage σ} {place : Place} {directive : Directive}
  {later : World σ} {items : List Value}
  (hstage : walker.stageAt tree first turns = some stage)
  (hmeeting : stage.meeting? = some place)
  (hone : walker.one place stage.descent.lineage stage.world = .ok directive later)
  (hlist : base.cell? (base.children place.parent) = some (.list items))

include hstage hmeeting hone hlist

/-- A node that a walk meets comes up in the tree, and the store shows the tree
    also after the node was dealt with. -/
theorem Rivals.shows_after :
    base.Poses tree place stage.descent.lineage ∧ base.Shows tree later.store := by
  obtain ⟨outer, hframes, hnode, hchild⟩ := Stage.meeting?_eq_some hmeeting
  obtain ⟨rival, hrival, hshows, hreached⟩ := hrivals.shows_stage hworlds hstage
  rw [hframes, List.forall_mem_cons] at hreached
  have hposes : base.Poses tree place stage.descent.lineage := by
    rw [← (Ancestry.of_stageAt hstage).parents, hframes]
    exact hshows.poses hreached.1 hlist hchild hnode (List.forall_mem_map.mpr hreached.2)
  have hboth := hrivals.one_abreast hrival hposes
  rw [hone] at hboth
  generalize other.one place _ rival = reply at hboth
  cases hboth with
  | ok _ hlater => exact ⟨hposes, (hrivals.shows _ _ hlater.states).1⟩

/-- What has children in an orderly tree has a list of them, in which it can
    start, so that no child fails to be entered. -/
theorem Rivals.enters_child (hexit : directive.action ≠ .action .exit) :
    ∃ outer next, stage.descent.frames = ⟨place.parent, place.index⟩ :: outer ∧
      walker.step stage.descent stage.world = .ok (.more next) later ∧
      walker.Entered later.store place directive outer next.frames := by
  obtain ⟨hposes, hshows⟩ := hrivals.shows_after hworlds hstage hmeeting hone hlist
  have hnode := hposes.reaches place.node List.mem_cons_self
  obtain ⟨outer, hframes, ⟨next, hstep, hentered⟩ | ⟨fault, _, hparent, hfails⟩⟩ :=
    enters_of_meeting hmeeting hone hexit
  · exact ⟨outer, next, hframes, hstep, hentered⟩
  · rcases hrivals.orderly place.node hnode with hnull | ⟨members, hmembers⟩
    · exact (hparent ((hshows.children _ hnode).trans hnull)).elim
    · rw [startOf_list (hshows.list hnode hmembers)] at hfails
      cases hfails

end Meeting

/-- In either walk an index that points to none of the siblings ends the level:
    the siblings stay what they are, so that it never comes to point to one. -/
theorem Rivals.overshotLevelsEnd : walker.OvershotLevelsEnd tree first base := by
  intro turns stage place directive later items overshoot hstage hmeeting hone hlist hindex
    hovershoot
  have hover : ∀ more last, walker.stageAt tree first (turns + 1 + more) = some last →
      ∀ outer, last.descent.frames = ⟨place.parent, directive.index⟩ :: outer →
        last.world.store.childAt (last.world.store.children place.parent) directive.index =
          .ok none := by
    intro more last hlast outer hframes
    obtain ⟨_, _, hthere, hreached⟩ := hrivals.shows_stage hworlds hlast
    have hparent := hreached ⟨place.parent, directive.index⟩ (by simp [hframes])
    exact hthere.childAt_outside hparent hlist hindex hovershoot
  have hcursor : walker.cursorAfter place.index directive.index = directive.index := by
    refine if_neg ?_
    intro hnull
    rw [hnull] at hindex
    cases hindex
  by_cases hexit : directive.action = .action .exit
  · obtain ⟨outer, hframes, _, _⟩ := Stage.meeting?_eq_some hmeeting
    exact ⟨outer, hframes, Or.inl ⟨hexit, exits_of_meeting hmeeting hone hexit⟩⟩
  · obtain ⟨outer, next, hframes, hstep, hentered⟩ :=
      hrivals.enters_child hworlds hstage hmeeting hone hlist hexit
    have hnext := stageAt_succ_of_step hstage hstep
    have hwithin := hentered.within
    rw [hcursor] at hwithin
    refine ⟨outer, hframes, Or.inr ⟨hexit, hcursor, ⟨_, hnext, rfl, hentered⟩, ?_, ?_, ?_⟩⟩
    · intro more last hlast
      exact within_or_left hnext hwithin (fun more last hlast => hover more last hlast outer) hlast
    · intro more last hlast hlevel
      exact leaves_of_childAt hlevel (hover more last hlast outer hlevel)
    · exact Nested.of_stageAt hstage [] ⟨place.parent, place.index⟩ outer hframes

end Main

/-- An index beyond the siblings ends a level, wherever beyond them it is: over
    a tree of lists, with checks and visitors that leave the tree as it is and
    agree but for such indices and for the index at the root, two walks are at
    the same levels after every turn and have made the same calls in the same
    order, and they come to the same ending or failure after as many turns, or
    neither ends. In each of the walks, after such an index at a child the child
    itself is still gone into unless its directive leaves that out, its level is
    left without another child, and the walk goes on where the parent's own
    level does. -/
theorem overshooting_ends_level {paired : Store × σ → Store × τ → Prop} {walker : Walker σ}
    {other : Walker τ} {base : Store} {tree : Value}
    (hrivals : Rivals paired walker other base tree) {first : World σ} {second : World τ}
    (hworlds : InStep paired first second) :
    (∀ turns, Option.Rel (Stage.Abreast (SameLevels paired base tree) (InStep paired))
      (walker.stageAt tree first turns) (other.stageAt tree second turns)) ∧
    (∀ fuel, Option.Rel (Abreast (InStep paired) Eq Eq)
      (walker.walk fuel tree first) (other.walk fuel tree second)) ∧
    walker.OvershotLevelsEnd tree first base ∧ other.OvershotLevelsEnd tree second base := by
  have hstep : ∀ descent rival mine theirs, SameLevels paired base tree descent rival →
      InStep paired mine theirs →
        Abreast (InStep paired) Eq (Step.Abreast (SameLevels paired base tree))
          (walker.step descent mine) (other.step rival theirs) :=
    fun _ _ _ _ hdescents hlater => hrivals.step_abreast hlater hdescents
  exact ⟨hrivals.stages_abreast hworlds, walk_abreast hstep (hrivals.start_abreast hworlds),
    hrivals.overshotLevelsEnd hworlds, hrivals.symm.overshotLevelsEnd hworlds.symm⟩

/-- A visitor that answers with an index at the first child of a root and with
    something else at the root. -/
def jumper (index : Int) (atRoot : Value) : Walker Unit where
  check _ := pure true
  visit place _ :=
    pure (if place.node = .cell ⟨2⟩ then .int index else if place.parent = .null then atRoot
      else .null)
  reverse := false
  annotate := false

theorem grove_reaches {node : Value} (hreaches : grove.Reaches (.cell ⟨0⟩) node) :
    node = .cell ⟨0⟩ ∨ node = .cell ⟨2⟩ ∨ node = .cell ⟨3⟩ ∨ node = .null := by
  induction hreaches with
  | here => exact Or.inl rfl
  | down _ hlist hchild ih =>
    rcases ih with rfl | rfl | rfl | rfl
    · cases hlist
      simp only [List.mem_cons, List.not_mem_nil, or_false] at hchild
      tauto
    · cases hlist
      simp only [List.mem_cons, List.not_mem_nil, or_false] at hchild
      tauto
    · cases hlist
    · cases hlist

/-- In the grove no node has more than three children. -/
theorem grove_length {parent : Value} {items : List Value}
    (hreaches : grove.Reaches (.cell ⟨0⟩) parent)
    (hlist : grove.cell? (grove.children parent) = some (.list items)) : items.length ≤ 3 := by
  rcases grove_reaches hreaches with rfl | rfl | rfl | rfl <;> cases hlist <;> decide

theorem jumpers_rival :
    Rivals (fun mine theirs => mine.1 = grove ∧ theirs.1 = grove) (jumper 99 (.int 5))
      (jumper (-1) .null) grove (.cell ⟨0⟩) where
  reverse := rfl
  annotate := rfl
  orderly := by
    intro node hreaches
    rcases grove_reaches hreaches with rfl | rfl | rfl | rfl
    · exact Or.inr ⟨_, rfl⟩
    · exact Or.inr ⟨_, rfl⟩
    · exact Or.inl rfl
    · exact Or.inl rfl
  shows := by
    rintro ⟨_, _⟩ ⟨_, _⟩ ⟨rfl, rfl⟩
    have hself : grove.Shows (.cell ⟨0⟩) grove := ⟨fun _ _ => rfl, fun _ _ _ hlist => hlist⟩
    exact ⟨hself, hself⟩
  heads := by
    rintro ⟨_, _⟩ ⟨_, _⟩ ⟨rfl, rfl⟩ _ _
    rfl
  labels := by
    intro hannotates
    cases hannotates
  agrees := by
    intro place lineage hposes
    refine ⟨fun _ _ hworlds => .ok rfl hworlds, fun first second hworlds => ?_⟩
    cases hposes with
    | root => exact .ok ⟨rfl, fun hindex => (hindex rfl).elim⟩ hworlds
    | @child node index parent _ _ _ hparent hmembers hindex hchild =>
      by_cases hnode : node = .cell ⟨2⟩
      · subst hnode
        refine .ok ⟨rfl, fun _ items hlist => ?_⟩ hworlds
        have hlength := grove_length hparent hlist
        exact .outside rfl rfl (by omega) (by omega)
      · have hroot : parent ≠ .null := by
          rintro rfl
          cases hmembers
        have hvisit : ∀ place atRoot, (jumper place atRoot).visit ⟨node, index, parent⟩ =
            fun _ => pure .null := by
          simp [jumper, hnode, hroot]
        rw [hvisit, hvisit]
        exact .ok (asksAlike_empty _) hworlds

/-- At the first child one walk is sent far beyond the last child and the other
    before the first. Both go into the child and leave its level. -/
theorem grove_overshot :
    (∀ fuel, Option.Rel
      (Abreast (InStep fun mine theirs => mine.1 = grove ∧ theirs.1 = grove) Eq Eq)
      ((jumper 99 (.int 5)).walk fuel (.cell ⟨0⟩) ⟨grove, [], ()⟩)
      ((jumper (-1) .null).walk fuel (.cell ⟨0⟩) ⟨grove, [], ()⟩)) ∧
    ∃ later, (jumper (-1) .null).EndsLevel (.cell ⟨0⟩) ⟨grove, [], ()⟩ 0
      ⟨.cell ⟨2⟩, .int 0, .cell ⟨0⟩⟩ { index := .int (-1) } later [] := by
  have hworlds : InStep (fun mine theirs => mine.1 = grove ∧ theirs.1 = grove)
      (⟨grove, [], ()⟩ : World Unit) (⟨grove, [], ()⟩ : World Unit) := ⟨⟨rfl, rfl⟩, rfl⟩
  obtain ⟨_, hwalks, _, hends⟩ := overshooting_ends_level jumpers_rival hworlds
  obtain ⟨outer, hframes, hexit | ⟨_, hlevel⟩⟩ :=
    hends 0 _ ⟨.cell ⟨2⟩, .int 0, .cell ⟨0⟩⟩ { index := .int (-1) } _ _ (-1) rfl rfl rfl rfl rfl
      (by decide)
  · cases hexit.1
  · cases hframes
    exact ⟨hwalks, _, hlevel⟩

end Walker

end Lineage
