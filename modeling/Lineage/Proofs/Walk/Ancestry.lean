import Lineage.Proofs.Node.Children
import Lineage.Proofs.Walk.Turn

namespace Lineage.Walker

variable {σ : Type}

/-- A turn meets a node only if a frame is left, whose cursor points to it. -/
theorem Stage.meeting?_eq_some {stage : Stage σ} {place : Place}
    (hmeeting : stage.meeting? = some place) :
    ∃ outer, stage.descent.frames = ⟨place.parent, place.index⟩ :: outer ∧ place.node ≠ .null ∧
      stage.world.store.childAt (stage.world.store.children place.parent) place.index =
        .ok (some place.node) := by
  unfold Stage.meeting? at hmeeting
  split at hmeeting
  · cases hmeeting
  · next frame outer hframes =>
    split at hmeeting
    · next child hchild =>
      split at hmeeting
      · cases hmeeting
      · next hnode =>
        cases hmeeting
        exact ⟨outer, hframes, hnode, hchild⟩
    · cases hmeeting

theorem Stage.meeting?_of_child {frame : Frame} {outer : List Frame} {lineage : List Value}
    {walked : Nat} {world : World σ} {child : Value} (hnode : child ≠ .null)
    (hchild : world.store.childAt (world.store.children frame.parent) frame.cursor =
      .ok (some child)) :
    Stage.meeting? ⟨⟨frame :: outer, lineage, walked⟩, world⟩ =
      some ⟨child, frame.cursor, frame.parent⟩ := by
  simp [Stage.meeting?, hchild, hnode]

/-- The three ways in which a turn goes on: it leaves the innermost level, it
    stays on it with the cursor moved, or it goes into the node that it met. -/
theorem step_more_cases (walker : Walker σ) {descent next : Descent} {world later : World σ}
    (hstep : walker.step descent world = .ok (.more next) later) :
    ∃ frame outer, descent.frames = frame :: outer ∧
      ((next.frames = outer ∧ next.lineage = descent.lineage.tail) ∨
       (∃ cursor, next.frames = ⟨frame.parent, cursor⟩ :: outer ∧
          next.lineage = descent.lineage) ∨
       ∃ place directive cursor inside,
          Stage.meeting? ⟨descent, world⟩ = some place ∧
          walker.one place descent.lineage world = .ok directive later ∧
          directive.action ≠ .action .skip ∧ directive.action ≠ .action .exit ∧
          next.frames = ⟨place.node, inside⟩ :: ⟨frame.parent, cursor⟩ :: outer ∧
          next.lineage = place.node :: descent.lineage) := by
  cases goesOn_of_step hstep with
  | leaves hchild => exact ⟨_, _, rfl, Or.inl ⟨rfl, rfl⟩⟩
  | passes hchild => exact ⟨_, _, rfl, Or.inr (Or.inl ⟨_, rfl, rfl⟩)⟩
  | enters hnode hchild hone hexit henter =>
    obtain ⟨-, rfl | ⟨-, hskip, inside, -, rfl⟩⟩ := enter_cases walker henter
    · exact ⟨_, _, rfl, Or.inr (Or.inl ⟨_, rfl, rfl⟩)⟩
    · exact ⟨_, _, rfl, Or.inr (Or.inr ⟨_, _, _, inside, Stage.meeting?_of_child hnode hchild,
        hone, hskip, hexit, rfl, rfl⟩)⟩

/-- A walk that goes on after the root has entered it or has nothing to do. -/
theorem start_more_cases (walker : Walker σ) {tree : Value} {descent : Descent}
    {world later : World σ} (hstart : walker.start tree world = .ok (.more descent) later) :
    descent = ⟨[], [], 1⟩ ∨ ∃ cursor, descent = ⟨[⟨tree, cursor⟩], [tree], 1⟩ := by
  rcases walker.announce_cases tree world with ⟨fault, -, hannounce⟩ | ⟨message, -, hannounce⟩
  · rw [walker.start_announce_fails hannounce] at hstart
    cases hstart
  rcases hone : walker.one { node := tree } [] (world.told message) with
    ⟨directive, middle⟩ | ⟨fault, middle⟩
  · by_cases hexit : directive.action = .action .exit
    · rw [start_exits walker hannounce hone hexit] at hstart
      cases hstart
    · rw [start_enters walker hannounce hone hexit] at hstart
      rcases henter : walker.enter ⟨[], [], 1⟩ tree directive middle with
        ⟨entered, last⟩ | ⟨fault, last⟩
      · simp only [bind, EStateM.bind, henter] at hstart
        cases hstart
        obtain ⟨-, rfl | ⟨-, -, cursor, -, rfl⟩⟩ := enter_cases walker henter
        · exact Or.inl rfl
        · exact Or.inr ⟨cursor, rfl⟩
      · simp only [bind, EStateM.bind, henter] at hstart
        cases hstart
  · rw [start_fails walker hannounce hone] at hstart
    cases hstart

/-- What a turn does depends on the check and on the visitor only through the
    call on the node that it meets, with the lineage of its stage. -/
theorem step_congr_of_meeting {walker other : Walker σ} {stage : Stage σ}
    (hreverse : other.reverse = walker.reverse)
    (hone : ∀ place, stage.meeting? = some place →
      other.one place stage.descent.lineage stage.world =
        walker.one place stage.descent.lineage stage.world) :
    other.step stage.descent stage.world = walker.step stage.descent stage.world := by
  have hstride : other.stride = walker.stride := by simp only [stride, hreverse]
  have henter : ∀ descent node directive world,
      other.enter descent node directive world = walker.enter descent node directive world := by
    intro descent node directive world
    simp only [enter, startOf, hreverse]
  obtain ⟨⟨frames, lineage, walked⟩, world⟩ := stage
  cases frames with
  | nil => rw [step_finished, step_finished]
  | cons frame outer =>
    rcases hchild : world.store.childAt (world.store.children frame.parent) frame.cursor with
      fault | child
    · rw [step_fails other hchild, step_fails walker hchild]
    · cases child with
      | none => rw [step_leaves other hchild, step_leaves walker hchild]
      | some child =>
        by_cases hnode : child = .null
        · subst hnode
          rw [step_passes other hchild, step_passes walker hchild, hstride]
        · have hsame := hone _ (Stage.meeting?_of_child hnode hchild)
          rcases hresult : walker.one ⟨child, frame.cursor, frame.parent⟩ lineage world with
            ⟨directive, later⟩ | ⟨fault, later⟩
          · rw [hresult] at hsame
            by_cases hexit : directive.action = .action .exit
            · rw [step_child_leaves other hnode hchild hsame hexit,
                step_child_leaves walker hnode hchild hresult hexit]
            · rw [step_child_enters other hnode hchild hsame hexit,
                step_child_enters walker hnode hchild hresult hexit]
              simp only [bind, EStateM.bind, henter, cursorAfter, hstride]
          · rw [hresult] at hsame
            rw [step_child_fails other hnode hchild hsame,
              step_child_fails walker hnode hchild hresult]

section Invariant

variable (walker : Walker σ) (tree : Value) (world : World σ)

/-- An earlier turn put a node to the test as a child of a parent with these
    ancestors, and was told neither to skip what is below it nor to exit. -/
def EnteredBefore (turns : Nat) (node parent : Value) (ancestors : List Value) : Prop :=
  ∃ earlier stage index directive later, earlier < turns ∧
    walker.stageAt tree world earlier = some stage ∧
    stage.meeting? = some ⟨node, index, parent⟩ ∧
    stage.descent.lineage = parent :: ancestors ∧
    walker.one ⟨node, index, parent⟩ (parent :: ancestors) stage.world = .ok directive later ∧
    directive.action ≠ .action .skip ∧ directive.action ≠ .action .exit

/-- What holds of the frames and the lineage of a walk after a number of turns:
    they name the same nodes, the outermost is the root, and each other one was
    entered before from the one outside of it. -/
structure Ancestry (turns : Nat) (descent : Descent) : Prop where
  parents : descent.frames.map Frame.parent = descent.lineage
  root : descent.lineage ≠ [] → descent.lineage.getLast? = some tree
  entered : ∀ newer node parent ancestors,
    descent.lineage = newer ++ node :: parent :: ancestors →
      walker.EnteredBefore tree world turns node parent ancestors

variable {walker tree world}

theorem EnteredBefore.mono {turns later : Nat} (hle : turns ≤ later) {node parent : Value}
    {ancestors : List Value}
    (hentered : walker.EnteredBefore tree world turns node parent ancestors) :
    walker.EnteredBefore tree world later node parent ancestors := by
  obtain ⟨earlier, stage, index, directive, after, hlt, hrest⟩ := hentered
  exact ⟨earlier, stage, index, directive, after, Nat.lt_of_lt_of_le hlt hle, hrest⟩

/-- The root is entered from nowhere. -/
theorem Ancestry.of_start {descent : Descent} {later : World σ}
    (hstart : walker.start tree world = .ok (.more descent) later) :
    walker.Ancestry tree world 0 descent := by
  rcases walker.start_more_cases hstart with rfl | ⟨cursor, rfl⟩
  · refine ⟨rfl, fun hnonempty => (hnonempty rfl).elim, ?_⟩
    intro newer node parent ancestors hsplit
    simp at hsplit
  · refine ⟨rfl, fun _ => rfl, ?_⟩
    intro newer node parent ancestors hsplit
    have hlength := congrArg List.length hsplit
    simp at hlength
    omega

/-- A turn keeps frames and lineage in step. Only going into a node adds to
    them, and the turn that does so is the one that entered the node. -/
theorem Ancestry.step {turns : Nat} {stage next : Stage σ}
    (hancestry : walker.Ancestry tree world turns stage.descent)
    (hstage : walker.stageAt tree world turns = some stage)
    (hstep : walker.step stage.descent stage.world = .ok (.more next.descent) next.world) :
    walker.Ancestry tree world (turns + 1) next.descent := by
  obtain ⟨frame, outer, hframes, hnext⟩ := walker.step_more_cases hstep
  have hlineage : stage.descent.lineage = frame.parent :: outer.map Frame.parent := by
    rw [← hancestry.parents, hframes, List.map_cons]
  have hroot := hancestry.root (by simp [hlineage])
  rcases hnext with ⟨houter, htail⟩ | ⟨cursor, hsame, hkept⟩ |
    ⟨place, directive, cursor, inside, hmeeting, hone, hskip, hexit, hdeeper, hlonger⟩
  · refine ⟨?_, ?_, ?_⟩
    · rw [houter, htail, hlineage, List.tail_cons]
    · intro hnonempty
      rw [htail, hlineage, List.tail_cons] at hnonempty ⊢
      rw [hlineage, List.getLast?_cons_of_ne_nil hnonempty] at hroot
      exact hroot
    · intro newer node parent ancestors hsplit
      rw [htail, hlineage, List.tail_cons] at hsplit
      refine (hancestry.entered (frame.parent :: newer) node parent ancestors ?_).mono
        (Nat.le_succ turns)
      rw [hlineage, hsplit, List.cons_append]
  · refine ⟨?_, ?_, ?_⟩
    · rw [hsame, hkept, hlineage, List.map_cons]
    · intro _
      rw [hkept, hroot]
    · intro newer node parent ancestors hsplit
      exact (hancestry.entered newer node parent ancestors (hkept ▸ hsplit)).mono
        (Nat.le_succ turns)
  · obtain ⟨_, hparent, _, _⟩ := Stage.meeting?_eq_some hmeeting
    rw [hframes] at hparent
    refine ⟨?_, ?_, ?_⟩
    · rw [hdeeper, hlonger, hlineage, List.map_cons, List.map_cons]
    · intro _
      rw [hlonger, hlineage, List.getLast?_cons_cons, ← hlineage, hroot]
    · intro newer node parent ancestors hsplit
      rw [hlonger] at hsplit
      cases newer with
      | nil =>
        -- The node that was gone into is the innermost ancestor by now.
        obtain ⟨rfl, hparents⟩ := List.cons.inj hsplit
        have hplace : place = ⟨place.node, place.index, parent⟩ := by
          rw [hlineage, (List.cons.inj hparent).1] at hparents
          rw [← (List.cons.inj hparents).1]
        exact ⟨turns, stage, place.index, directive, next.world, Nat.lt_succ_self turns, hstage,
          hplace ▸ hmeeting, hparents, hplace ▸ hparents ▸ hone, hskip, hexit⟩
      | cons first newer =>
        obtain ⟨rfl, hrest⟩ := List.cons.inj hsplit
        exact (hancestry.entered newer node parent ancestors hrest).mono (Nat.le_succ turns)

/-- Frames and lineage are in step after any number of turns. -/
theorem Ancestry.of_stageAt {turns : Nat} {stage : Stage σ}
    (hstage : walker.stageAt tree world turns = some stage) :
    walker.Ancestry tree world turns stage.descent := by
  induction turns generalizing stage with
  | zero =>
    simp only [stageAt] at hstage
    split at hstage
    · next hstart =>
      cases hstage
      exact Ancestry.of_start hstart
    · cases hstage
  | succ turns ih =>
    obtain ⟨before, hbefore, hstep⟩ := stageAt_succ hstage
    exact (ih hbefore).step hbefore hstep

end Invariant

/-- At every turn of a walk, of any length and whatever the visitor does to the
    tree, the check and the visitor are called on no node but the one that the
    turn meets. At such a call the frames and the ancestors are the same nodes,
    the outermost of them is the root and the nearest is the parent; the node
    stands at its index among the children of the parent, when it is put to the
    check and, unless the check has changed the store, when it is visited; and
    every ancestor but the root was entered before as a child of the next. -/
theorem calls_follow_ancestry (walker : Walker σ) (tree : Value) (world : World σ) (turns : Nat)
    {stage : Stage σ} (hstage : walker.stageAt tree world turns = some stage) :
    (∀ other : Walker σ, other.reverse = walker.reverse →
      (∀ place, stage.meeting? = some place →
        other.one place stage.descent.lineage stage.world =
          walker.one place stage.descent.lineage stage.world) →
      other.step stage.descent stage.world = walker.step stage.descent stage.world) ∧
    ∀ place, stage.meeting? = some place →
      stage.descent.frames.map Frame.parent = stage.descent.lineage ∧
      stage.descent.lineage.getLast? = some tree ∧
      stage.descent.lineage.head? = some place.parent ∧
      stage.world.store.memberAt (stage.world.store.children place.parent) place.index =
        .ok place.node ∧
      (∀ passed checked,
        walker.check place
          { stage.world with journal := .offered place :: stage.world.journal } =
            .ok passed checked →
        checked.store = stage.world.store →
        checked.store.memberAt (checked.store.children place.parent) place.index =
          .ok place.node) ∧
      ∀ newer node parent ancestors,
        stage.descent.lineage = newer ++ node :: parent :: ancestors →
          walker.EnteredBefore tree world turns node parent ancestors := by
  refine ⟨fun other hreverse hone => step_congr_of_meeting hreverse hone, ?_⟩
  intro place hmeeting
  have hancestry := Ancestry.of_stageAt hstage
  obtain ⟨outer, hframes, _, hchild⟩ := Stage.meeting?_eq_some hmeeting
  have hmember := Store.memberAt_of_childAt hchild
  have hlineage : stage.descent.lineage = place.parent :: outer.map Frame.parent := by
    rw [← hancestry.parents, hframes, List.map_cons]
  refine ⟨hancestry.parents, hancestry.root ?_, ?_, hmember, ?_, hancestry.entered⟩
  · rw [hlineage]
    exact List.cons_ne_nil _ _
  · rw [hlineage, List.head?_cons]
  · intro passed checked _ hstore
    rw [hstore]
    exact hmember

/-- A root whose child has a child of its own, which is a leaf. -/
def chain : Store :=
  ⟨#[.mapping [("type", .text "root"), ("children", .cell ⟨1⟩)], .list [.cell ⟨2⟩],
    .mapping [("type", .text "branch"), ("children", .cell ⟨3⟩)], .list [.cell ⟨4⟩],
    .mapping [("type", .text "leaf")]]⟩

/-- A walk in which every node passes and every visit lets it go on. -/
def thorough (reverse : Bool) : Walker Unit where
  check _ := pure true
  visit _ _ := pure .null
  reverse := reverse
  annotate := false

/-- The second turn over the chain meets the leaf; the branch above it was
    entered before from the root. -/
theorem chain_leaf_follows_ancestry :
    ∃ stage, (thorough false).stageAt (.cell ⟨0⟩) ⟨chain, [], ()⟩ 1 = some stage ∧
      stage.meeting? = some ⟨.cell ⟨4⟩, .int 0, .cell ⟨2⟩⟩ ∧
      stage.descent.frames.map Frame.parent = stage.descent.lineage ∧
      (thorough false).EnteredBefore (.cell ⟨0⟩) ⟨chain, [], ()⟩ 1 (.cell ⟨2⟩) (.cell ⟨0⟩) [] := by
  refine ⟨_, rfl, rfl, ?_⟩
  have hcalls := (calls_follow_ancestry (thorough false) (.cell ⟨0⟩) ⟨chain, [], ()⟩ 1 rfl).2
    ⟨.cell ⟨4⟩, .int 0, .cell ⟨2⟩⟩ rfl
  exact ⟨hcalls.1, hcalls.2.2.2.2.2 [] (.cell ⟨2⟩) (.cell ⟨0⟩) [] rfl⟩

/-- A walk whose check takes all children from the root of the chain as soon as
    it is put to one of them, and lets every node pass. -/
def gutting : Walker Unit where
  check place := fun world =>
    if place.parent = .cell ⟨0⟩ then .ok true { world with store := world.store.put ⟨1⟩ (.list []) }
    else .ok true world
  visit _ _ := pure .null
  reverse := false
  annotate := false

/-- The first turn meets the branch, which is the first child of the root when it
    is put to the check. When it is visited the root has no first child. -/
theorem gutted_parent_lacks_child :
    ∃ stage checked visited, gutting.stageAt (.cell ⟨0⟩) ⟨chain, [], ()⟩ 0 = some stage ∧
      stage.meeting? = some ⟨.cell ⟨2⟩, .int 0, .cell ⟨0⟩⟩ ∧
      gutting.check ⟨.cell ⟨2⟩, .int 0, .cell ⟨0⟩⟩
        { stage.world with
          journal := .offered ⟨.cell ⟨2⟩, .int 0, .cell ⟨0⟩⟩ :: stage.world.journal } =
            .ok true checked ∧
      checked.store.childAt (checked.store.children (.cell ⟨0⟩)) (.int 0) = .ok none ∧
      checked.store.memberAt (checked.store.children (.cell ⟨0⟩)) (.int 0) ≠ .ok (.cell ⟨2⟩) ∧
      gutting.one ⟨.cell ⟨2⟩, .int 0, .cell ⟨0⟩⟩ stage.descent.lineage stage.world =
        .ok {} visited ∧
      visited.journal =
        .visited ⟨.cell ⟨2⟩, .int 0, .cell ⟨0⟩⟩ [.cell ⟨0⟩] :: checked.journal := by
  obtain ⟨⟨⟨frames, lineage, walked⟩, ⟨store, journal, user⟩⟩, hstage, hmeeting, hstore, hlineage⟩ :
      ∃ stage, gutting.stageAt (.cell ⟨0⟩) ⟨chain, [], ()⟩ 0 = some stage ∧
        stage.meeting? = some ⟨.cell ⟨2⟩, .int 0, .cell ⟨0⟩⟩ ∧
        stage.world.store = chain ∧ stage.descent.lineage = [.cell ⟨0⟩] :=
    ⟨_, rfl, rfl, rfl, rfl⟩
  obtain rfl : store = chain := hstore
  obtain rfl : lineage = [.cell ⟨0⟩] := hlineage
  exact ⟨_, _, _, hstage, hmeeting, rfl, rfl, nofun, rfl, rfl⟩

end Lineage.Walker
