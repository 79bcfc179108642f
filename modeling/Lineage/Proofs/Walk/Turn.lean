import Lineage.Proofs.Node.Labels
import Lineage.Walk

namespace Lineage

/-- The world after a message on the walk itself. -/
def World.told {σ : Type} (world : World σ) (message : String) : World σ :=
  { world with journal := .said .debug message :: world.journal }

/-- The calls of the visitor that a journal tells of, the newest first. -/
def visitsOf (journal : List Entry) : List (Place × List Value) :=
  journal.filterMap fun
    | .visited place lineage => some (place, lineage)
    | _ => none

/-- The calls of the check and of the visitor that a journal tells of, the
    newest first. -/
def callsIn (journal : List Entry) : List Entry :=
  journal.filter fun
    | .said _ _ => false
    | _ => true

@[simp] theorem callsIn_told {σ : Type} (world : World σ) (message : String) :
    callsIn (world.told message).journal = callsIn world.journal := by
  rfl

/-- The calls of the visitor are among the calls. -/
theorem visitsOf_callsIn (journal : List Entry) : visitsOf (callsIn journal) = visitsOf journal := by
  induction journal with
  | nil => rfl
  | cons entry rest ih =>
    cases entry with
    | said severity message => simpa [callsIn, visitsOf] using ih
    | offered place => simpa [callsIn, visitsOf] using ih
    | visited place lineage => simpa [callsIn, visitsOf] using ih

namespace Walker

variable {σ : Type}

/-- A walk between two turns of its loop: what is still to be done, and the
    world as it is by then. -/
structure Stage (σ : Type) where
  descent : Descent
  world : World σ

/-- The node that the next turn puts to the test, if it puts any. -/
def Stage.meeting? (stage : Stage σ) : Option Place :=
  match stage.descent.frames with
  | [] => none
  | frame :: _ =>
    match stage.world.store.childAt (stage.world.store.children frame.parent) frame.cursor with
    | .ok (some child) => if child = .null then none else some ⟨child, frame.cursor, frame.parent⟩
    | _ => none

/-- The stage after a number of turns, if the walk goes on for so long. -/
def after (walker : Walker σ) : Nat → Stage σ → Option (Stage σ)
  | 0, stage => some stage
  | turns + 1, stage =>
    match walker.step stage.descent stage.world with
    | .ok (.more descent) world => walker.after turns ⟨descent, world⟩
    | _ => none

/-- The stage of a walk a number of turns after the root was dealt with, if
    the walk goes on for so long. -/
def stageAt (walker : Walker σ) (tree : Value) (world : World σ) (turns : Nat) :
    Option (Stage σ) :=
  match walker.start tree world with
  | .ok (.more descent) world => walker.after turns ⟨descent, world⟩
  | _ => none

/-- The place of the child that follows one that was dealt with: the index that
    the directive gives, or else that of the next sibling. -/
def cursorAfter (walker : Walker σ) (cursor index : Value) : Value :=
  if index = .null then cursor.moved walker.stride else index

section Enter

variable (walker : Walker σ) (descent : Descent) (node : Value) (directive : Directive)
  (world : World σ)

/-- A leaf, or a node whose children are left out, is not entered. -/
theorem enter_stays
    (hstay : world.store.children node = .null ∨ directive.action = .action .skip) :
    walker.enter descent node directive world = .ok descent world := by
  simp [enter, Act.store, bind, EStateM.bind, pure, EStateM.pure, hstay]

theorem enter_fails {fault : Fault}
    (henter : ¬ (world.store.children node = .null ∨ directive.action = .action .skip))
    (hstart : walker.startOf world.store (world.store.children node) = .error fault) :
    walker.enter descent node directive world = .error fault world := by
  simp [enter, Act.store, Act.ofExcept, bind, EStateM.bind, henter, hstart]

/-- Entering a node puts a frame and an ancestor on top of the others. -/
theorem enter_descends {cursor : Value}
    (henter : ¬ (world.store.children node = .null ∨ directive.action = .action .skip))
    (hstart : walker.startOf world.store (world.store.children node) = .ok cursor) :
    walker.enter descent node directive world =
      .ok { descent with
        frames := ⟨node, cursor⟩ :: descent.frames
        lineage := node :: descent.lineage } world := by
  simp [enter, Act.store, Act.ofExcept, bind, EStateM.bind, pure, EStateM.pure, henter, hstart]

variable {descent node directive world}

/-- Entering a node without a failure leaves everything as it is, or puts a level
    for its children on top of the others. -/
theorem enter_cases {next : Descent} {later : World σ}
    (henter : walker.enter descent node directive world = .ok next later) :
    later = world ∧ (next = descent ∨
      world.store.children node ≠ .null ∧ directive.action ≠ .action .skip ∧
        ∃ cursor, walker.startOf world.store (world.store.children node) = .ok cursor ∧
          next = { descent with
            frames := ⟨node, cursor⟩ :: descent.frames
            lineage := node :: descent.lineage }) := by
  by_cases hstay : world.store.children node = .null ∨ directive.action = .action .skip
  · rw [enter_stays walker descent node directive world hstay] at henter
    cases henter
    exact ⟨rfl, Or.inl rfl⟩
  · rcases hstart : walker.startOf world.store (world.store.children node) with fault | cursor
    · rw [enter_fails walker descent node directive world hstay hstart] at henter
      cases henter
    · rw [enter_descends walker descent node directive world hstay hstart] at henter
      cases henter
      exact ⟨rfl, Or.inr ⟨(not_or.mp hstay).1, (not_or.mp hstay).2, cursor, rfl, rfl⟩⟩

end Enter

/-- How a walk ends at a child: it tells at which one, or it fails because it
    cannot. -/
inductive EndsAt (node : Value) (world : World σ) : EStateM.Result Fault (World σ) Step → Prop where
  | told (hlabel : world.store.CanLabel node) (message : String) :
      EndsAt node world (.ok (.done .exited) (world.told message))
  | untold {fault : Fault} (hhead : world.store.unwritable? (world.store.head node) = some fault) :
      EndsAt node world (.error fault world)

section Leave

variable {node : Value} {world : World σ}

theorem leave_tells {walked : Nat} (hlabel : world.store.CanLabel node) :
    leave node walked world =
      .ok (.done .exited)
        (world.told ("Traversal exited at " ++ world.store.display (world.store.label node) ++
          " after " ++ toString walked ++ " nodes")) := by
  have htext := Store.labelText_of_canLabel hlabel
  simp only [leave, Act.store, Act.ofExcept, bind, EStateM.bind, htext]
  rfl

theorem leave_fails {walked : Nat} {fault : Fault}
    (hhead : world.store.unwritable? (world.store.head node) = some fault) :
    leave node walked world = .error fault world := by
  have htext := Store.labelText_fails hhead
  simp only [leave, Act.store, Act.ofExcept, bind, EStateM.bind, htext]

theorem endsAt_leave (node : Value) (walked : Nat) (world : World σ) :
    EndsAt node world (leave node walked world) := by
  cases hhead : world.store.unwritable? (world.store.head node) with
  | none =>
    rw [leave_tells hhead]
    exact .told hhead _
  | some fault =>
    rw [leave_fails hhead]
    exact .untold hhead

/-- A walk that ends at a child does not go on. -/
theorem leave_ne_more {walked : Nat} {next : Descent} {later : World σ} :
    leave node walked world ≠ .ok (.more next) later := by
  intro hmore
  have hends := endsAt_leave node walked world
  rw [hmore] at hends
  cases hends

end Leave

section Step

variable (walker : Walker σ) {frame : Frame} {outer : List Frame} {lineage : List Value}
  {walked : Nat} {world : World σ}

/-- A walk without frames is over. -/
theorem step_finished :
    walker.step ⟨[], lineage, walked⟩ world =
      .ok (.done .finished)
        (world.told ("Traversal finished, " ++ toString walked ++ " nodes walked")) := by
  rfl

theorem step_fails {fault : Fault}
    (hchild : world.store.childAt (world.store.children frame.parent) frame.cursor =
      .error fault) :
    walker.step ⟨frame :: outer, lineage, walked⟩ world = .error fault world := by
  simp [step, Act.store, Act.ofExcept, bind, EStateM.bind, hchild]

theorem step_leaves
    (hchild : world.store.childAt (world.store.children frame.parent) frame.cursor = .ok none) :
    walker.step ⟨frame :: outer, lineage, walked⟩ world =
      .ok (.more ⟨outer, lineage.tail, walked⟩) world := by
  simp [step, Act.store, Act.ofExcept, bind, EStateM.bind, pure, EStateM.pure, hchild]

theorem step_passes
    (hchild : world.store.childAt (world.store.children frame.parent) frame.cursor =
      .ok (some .null)) :
    walker.step ⟨frame :: outer, lineage, walked⟩ world =
      .ok (.more ⟨⟨frame.parent, frame.cursor.moved walker.stride⟩ :: outer, lineage, walked⟩)
        world := by
  simp [step, Act.store, Act.ofExcept, bind, EStateM.bind, pure, EStateM.pure, hchild]

variable {child : Value} (hnode : child ≠ .null)
  (hchild : world.store.childAt (world.store.children frame.parent) frame.cursor =
    .ok (some child))

include hnode hchild

theorem step_child_fails {fault : Fault} {later : World σ}
    (hone : walker.one ⟨child, frame.cursor, frame.parent⟩ lineage world = .error fault later) :
    walker.step ⟨frame :: outer, lineage, walked⟩ world = .error fault later := by
  simp [step, Act.store, Act.ofExcept, bind, EStateM.bind, hchild, hone]

section Exit

variable {directive : Directive} {later : World σ}
  (hone : walker.one ⟨child, frame.cursor, frame.parent⟩ lineage world = .ok directive later)
  (hexit : directive.action = .action .exit)

include hone hexit

/-- A child at which the visitor ends the walk is the last one. -/
theorem step_child_leaves :
    walker.step ⟨frame :: outer, lineage, walked⟩ world = leave child (walked + 1) later := by
  simp [step, Act.store, Act.ofExcept, bind, EStateM.bind, hchild, hone, hexit]

theorem step_child_ends :
    EndsAt child later (walker.step ⟨frame :: outer, lineage, walked⟩ world) := by
  rw [step_child_leaves walker hnode hchild hone hexit]
  exact endsAt_leave child (walked + 1) later

end Exit

variable {directive : Directive} {later : World σ}
  (hone : walker.one ⟨child, frame.cursor, frame.parent⟩ lineage world = .ok directive later)
  (hexit : directive.action ≠ .action .exit)

include hone hexit

/-- Any other child moves the cursor of its level and is then entered. -/
theorem step_child_enters :
    walker.step ⟨frame :: outer, lineage, walked⟩ world =
      (walker.enter ⟨⟨frame.parent, walker.cursorAfter frame.cursor directive.index⟩ :: outer,
        lineage, walked + 1⟩ child directive >>= fun descent => pure (.more descent)) later := by
  simp [step, Act.store, Act.ofExcept, bind, EStateM.bind, hchild, hone, hexit, cursorAfter]

/-- A child that is entered without a failure keeps the walk going. -/
theorem step_child_goes_on {next : Descent}
    (henter : walker.enter ⟨⟨frame.parent, walker.cursorAfter frame.cursor directive.index⟩ ::
      outer, lineage, walked + 1⟩ child directive later = .ok next later) :
    walker.step ⟨frame :: outer, lineage, walked⟩ world = .ok (.more next) later := by
  rw [step_child_enters walker hnode hchild hone hexit]
  simp only [bind, EStateM.bind, henter]
  rfl

theorem step_child_stays
    (hstay : later.store.children child = .null ∨ directive.action = .action .skip) :
    walker.step ⟨frame :: outer, lineage, walked⟩ world =
      .ok (.more ⟨⟨frame.parent, walker.cursorAfter frame.cursor directive.index⟩ :: outer,
        lineage, walked + 1⟩) later := by
  rw [step_child_enters walker hnode hchild hone hexit]
  simp only [bind, EStateM.bind, enter_stays walker _ child directive later hstay]
  rfl

variable (henter : ¬ (later.store.children child = .null ∨ directive.action = .action .skip))

include henter

theorem step_child_enter_fails {fault : Fault}
    (hstart : walker.startOf later.store (later.store.children child) = .error fault) :
    walker.step ⟨frame :: outer, lineage, walked⟩ world = .error fault later := by
  rw [step_child_enters walker hnode hchild hone hexit]
  simp only [bind, EStateM.bind, enter_fails walker _ child directive later henter hstart]

/-- A child that is entered gets a level of its own. -/
theorem step_child_descends {inside : Value}
    (hstart : walker.startOf later.store (later.store.children child) = .ok inside) :
    walker.step ⟨frame :: outer, lineage, walked⟩ world =
      .ok (.more ⟨⟨child, inside⟩ ::
        ⟨frame.parent, walker.cursorAfter frame.cursor directive.index⟩ :: outer,
        child :: lineage, walked + 1⟩) later := by
  rw [step_child_enters walker hnode hchild hone hexit]
  simp only [bind, EStateM.bind, enter_descends walker _ child directive later henter hstart]
  rfl

end Step

/-- What a turn that goes on has done: it left the innermost level, passed over a
    gap in it, or dealt with a child there and entered it. -/
inductive GoesOn (walker : Walker σ) (world : World σ) : Descent → Descent → World σ → Prop where
  | leaves {frame : Frame} {outer : List Frame} {lineage : List Value} {walked : Nat}
      (hchild : world.store.childAt (world.store.children frame.parent) frame.cursor = .ok none) :
      GoesOn walker world ⟨frame :: outer, lineage, walked⟩ ⟨outer, lineage.tail, walked⟩ world
  | passes {frame : Frame} {outer : List Frame} {lineage : List Value} {walked : Nat}
      (hchild : world.store.childAt (world.store.children frame.parent) frame.cursor =
        .ok (some .null)) :
      GoesOn walker world ⟨frame :: outer, lineage, walked⟩
        ⟨⟨frame.parent, frame.cursor.moved walker.stride⟩ :: outer, lineage, walked⟩ world
  | enters {frame : Frame} {outer : List Frame} {lineage : List Value} {walked : Nat}
      {child : Value} {directive : Directive} {next : Descent} {later : World σ}
      (hnode : child ≠ .null)
      (hchild : world.store.childAt (world.store.children frame.parent) frame.cursor =
        .ok (some child))
      (hone : walker.one ⟨child, frame.cursor, frame.parent⟩ lineage world = .ok directive later)
      (hexit : directive.action ≠ .action .exit)
      (henter : walker.enter ⟨⟨frame.parent, walker.cursorAfter frame.cursor directive.index⟩ ::
        outer, lineage, walked + 1⟩ child directive later = .ok next later) :
      GoesOn walker world ⟨frame :: outer, lineage, walked⟩ next later

theorem goesOn_of_step {walker : Walker σ} {descent next : Descent} {world later : World σ}
    (hstep : walker.step descent world = .ok (.more next) later) :
    walker.GoesOn world descent next later := by
  obtain ⟨_ | ⟨frame, outer⟩, lineage, walked⟩ := descent
  · rw [step_finished] at hstep
    cases hstep
  rcases hchild : world.store.childAt (world.store.children frame.parent) frame.cursor with
    fault | _ | child
  · rw [step_fails walker hchild] at hstep
    cases hstep
  · rw [step_leaves walker hchild] at hstep
    cases hstep
    exact .leaves hchild
  by_cases hnode : child = .null
  · subst hnode
    rw [step_passes walker hchild] at hstep
    cases hstep
    exact .passes hchild
  rcases hone : walker.one ⟨child, frame.cursor, frame.parent⟩ lineage world with
    ⟨directive, middle⟩ | ⟨fault, middle⟩
  · by_cases hexit : directive.action = .action .exit
    · rw [step_child_leaves walker hnode hchild hone hexit] at hstep
      exact (leave_ne_more hstep).elim
    · rw [step_child_enters walker hnode hchild hone hexit] at hstep
      rcases henter : walker.enter ⟨⟨frame.parent, walker.cursorAfter frame.cursor
        directive.index⟩ :: outer, lineage, walked + 1⟩ child directive middle with
        ⟨entered, last⟩ | ⟨fault, last⟩
      · simp only [bind, EStateM.bind, henter] at hstep
        cases hstep
        obtain rfl := (enter_cases walker henter).1
        exact .enters hnode hchild hone hexit henter
      · simp only [bind, EStateM.bind, henter] at hstep
        cases hstep
  · rw [step_child_fails walker hnode hchild hone] at hstep
    cases hstep

section Start

variable (walker : Walker σ) {tree : Value} {world : World σ}

/-- All that a walk does before the root is to say where it starts. -/
theorem announce_tells (hlabel : world.store.CanLabel tree) :
    ∃ message, walker.announce tree world = .ok () (world.told message) := by
  have htext := Store.labelText_of_canLabel hlabel
  exact ⟨_, by
    simp only [announce, Act.store, Act.ofExcept, bind, EStateM.bind, htext]
    rfl⟩

theorem announce_fails {fault : Fault}
    (hhead : world.store.unwritable? (world.store.head tree) = some fault) :
    walker.announce tree world = .error fault world := by
  have htext := Store.labelText_fails hhead
  simp only [announce, Act.store, Act.ofExcept, bind, EStateM.bind, htext]

/-- A walk says where it starts, or fails because it cannot. -/
theorem announce_cases (tree : Value) (world : World σ) :
    (∃ fault, world.store.unwritable? (world.store.head tree) = some fault ∧
        walker.announce tree world = .error fault world) ∨
      ∃ message, world.store.CanLabel tree ∧
        walker.announce tree world = .ok () (world.told message) := by
  cases hhead : world.store.unwritable? (world.store.head tree) with
  | some fault => exact .inl ⟨fault, rfl, walker.announce_fails hhead⟩
  | none =>
    obtain ⟨message, htells⟩ := walker.announce_tells hhead
    exact .inr ⟨message, hhead, htells⟩

/-- A walk that cannot tell where it starts does nothing else. -/
theorem start_announce_fails {fault : Fault} {later : World σ}
    (hannounce : walker.announce tree world = .error fault later) :
    walker.start tree world = .error fault later := by
  simp [start, bind, EStateM.bind, hannounce]

theorem walk_announce_fails {fault : Fault} {later : World σ}
    (hannounce : walker.announce tree world = .error fault later) (fuel : Nat) :
    walker.walk fuel tree world = some (.error fault later) := by
  rw [walk, walker.start_announce_fails hannounce]

variable {opened : World σ} (hannounce : walker.announce tree world = .ok () opened)

include hannounce

theorem start_fails {fault : Fault} {later : World σ}
    (hone : walker.one { node := tree } [] opened = .error fault later) :
    walker.start tree world = .error fault later := by
  simp [start, bind, EStateM.bind, hannounce, hone]

variable {directive : Directive} {later : World σ}
  (hone : walker.one { node := tree } [] opened = .ok directive later)

include hone

theorem start_exits (hexit : directive.action = .action .exit) :
    walker.start tree world = .ok (.done .exited) (later.told "Traversal exited at root") := by
  simp [start, Act.say, Act.record, World.told, bind, EStateM.bind, pure, EStateM.pure,
    hannounce, hone, hexit]

/-- Otherwise the root is entered like any other node. -/
theorem start_enters (hexit : directive.action ≠ .action .exit) :
    walker.start tree world =
      (walker.enter ⟨[], [], 1⟩ tree directive >>= fun descent => pure (.more descent)) later := by
  simp [start, bind, EStateM.bind, hannounce, hone, hexit]

theorem start_goes_on (hexit : directive.action ≠ .action .exit) {next : Descent}
    (henter : walker.enter ⟨[], [], 1⟩ tree directive later = .ok next later) :
    walker.start tree world = .ok (.more next) later := by
  rw [start_enters walker hannounce hone hexit]
  simp only [bind, EStateM.bind, henter]
  rfl

end Start

section Runs

variable {walker : Walker σ}

/-- Turns made one after the other add up. -/
theorem after_add {turns more : Nat} {stage middle : Stage σ}
    (hfirst : walker.after turns stage = some middle) :
    walker.after (turns + more) stage = walker.after more middle := by
  induction turns generalizing stage with
  | zero =>
    cases hfirst
    rw [Nat.zero_add]
  | succ turns ih =>
    rw [Nat.add_right_comm]
    simp only [after] at hfirst ⊢
    split at hfirst
    · exact ih hfirst
    · cases hfirst

theorem after_succ_of_step {turns : Nat} {descent next : Descent} {world later : World σ}
    (hstep : walker.step descent world = .ok (.more next) later) :
    walker.after (turns + 1) ⟨descent, world⟩ = walker.after turns ⟨next, later⟩ := by
  simp only [after, hstep]

/-- The last of several turns starts from the stage that the others lead to. -/
theorem after_succ_iff {turns : Nat} {stage last : Stage σ} :
    walker.after (turns + 1) stage = some last ↔
      ∃ middle, walker.after turns stage = some middle ∧
        walker.step middle.descent middle.world = .ok (.more last.descent) last.world := by
  induction turns generalizing stage with
  | zero =>
    simp only [after, Option.some.injEq, exists_eq_left']
    split
    · next descent world hstep =>
      rw [hstep]
      constructor
      · rintro ⟨⟩
        rfl
      · intro hlast
        cases last
        simp_all
    · next hover =>
      constructor
      · intro hlast
        cases hlast
      · intro hstep
        exact (hover _ _ hstep).elim
  | succ turns ih =>
    rw [after]
    split
    · next descent world hstep =>
      rw [ih]
      show _ ↔ ∃ middle, walker.after (turns + 1) ⟨stage.descent, stage.world⟩ = _ ∧ _
      rw [after_succ_of_step hstep]
    · next hover =>
      constructor
      · intro hlast
        cases hlast
      · rintro ⟨middle, hmiddle, _⟩
        rw [after] at hmiddle
        split at hmiddle
        · next hstep => exact (hover _ _ hstep).elim
        · cases hmiddle

theorem stageAt_succ {turns : Nat} {tree : Value} {world : World σ} {last : Stage σ}
    (hlast : walker.stageAt tree world (turns + 1) = some last) :
    ∃ middle, walker.stageAt tree world turns = some middle ∧
      walker.step middle.descent middle.world = .ok (.more last.descent) last.world := by
  simp only [stageAt] at hlast ⊢
  split at hlast
  · exact after_succ_iff.mp hlast
  · cases hlast

/-- A run takes up where the turns before it have led. -/
theorem run_of_after {turns fuel : Nat} {stage later : Stage σ}
    (hafter : walker.after turns stage = some later) :
    walker.run (turns + fuel) (.more stage.descent) stage.world =
      walker.run fuel (.more later.descent) later.world := by
  induction turns generalizing stage with
  | zero =>
    cases hafter
    rw [Nat.zero_add]
  | succ turns ih =>
    rw [Nat.add_right_comm]
    simp only [after] at hafter
    split at hafter
    · next hstep =>
      simp only [run, hstep]
      exact ih hafter
    · cases hafter

/-- A run that is over by some number of turns goes on for fewer. -/
theorem lt_of_run {turns fuel : Nat} {stage later : Stage σ} {outcome : Outcome σ}
    (hrun : walker.run fuel (.more stage.descent) stage.world = some outcome)
    (hafter : walker.after turns stage = some later) : turns < fuel := by
  induction fuel generalizing stage turns with
  | zero => cases hrun
  | succ fuel ih =>
    cases turns with
    | zero => omega
    | succ turns =>
      simp only [after] at hafter
      split at hafter
      · next hstep =>
        simp only [run, hstep] at hrun
        have hlt := @ih turns ⟨_, _⟩ hrun hafter
        omega
      · cases hafter

/-- More fuel does not change what a run comes to. -/
theorem run_mono {fuel more : Nat} {step : Step} {world : World σ} {outcome : Outcome σ}
    (hrun : walker.run fuel step world = some outcome) :
    walker.run (fuel + more) step world = some outcome := by
  induction fuel generalizing step world with
  | zero =>
    cases step with
    | done ending => simpa only [run] using hrun
    | more descent => cases hrun
  | succ fuel ih =>
    cases step with
    | done ending => simpa only [run] using hrun
    | more descent =>
      rw [Nat.add_right_comm]
      simp only [run] at hrun ⊢
      split
      · next hstep =>
        rw [hstep] at hrun
        exact ih hrun
      · next hstep =>
        rw [hstep] at hrun
        exact hrun

theorem walk_mono {fuel more : Nat} {tree : Value} {world : World σ} {outcome : Outcome σ}
    (hwalk : walker.walk fuel tree world = some outcome) :
    walker.walk (fuel + more) tree world = some outcome := by
  simp only [walk] at hwalk ⊢
  split
  · next hstart =>
    rw [hstart] at hwalk
    exact run_mono hwalk
  · next hstart =>
    rw [hstart] at hwalk
    exact hwalk

/-- A walk comes to one outcome, whatever the fuel. -/
theorem walk_unique {fuel other : Nat} {tree : Value} {world : World σ}
    {outcome rival : Outcome σ} (hwalk : walker.walk fuel tree world = some outcome)
    (hrival : walker.walk other tree world = some rival) : outcome = rival := by
  have hmore : walker.walk (fuel + other) tree world = some outcome := walk_mono hwalk
  have hless : walker.walk (other + fuel) tree world = some rival := walk_mono hrival
  rw [Nat.add_comm, hless] at hmore
  exact (Option.some.inj hmore).symm

/-- The loop stops a walk at a turn that does not go on. -/
theorem walk_of_stage {turns : Nat} {tree : Value} {world : World σ} {stage : Stage σ}
    (hstage : walker.stageAt tree world turns = some stage) :
    walker.walk (turns + 1) tree world = walker.run 1 (.more stage.descent) stage.world := by
  simp only [stageAt] at hstage
  simp only [walk]
  split at hstage
  · next hstart =>
    rw [hstart]
    exact run_of_after hstage
  · cases hstage

theorem lt_of_walk {turns fuel : Nat} {tree : Value} {world : World σ} {stage : Stage σ}
    {outcome : Outcome σ} (hwalk : walker.walk fuel tree world = some outcome)
    (hstage : walker.stageAt tree world turns = some stage) : turns < fuel := by
  simp only [stageAt] at hstage
  simp only [walk] at hwalk
  split at hstage
  · next descent later hstart =>
    rw [hstart] at hwalk
    exact @lt_of_run σ walker turns fuel ⟨descent, later⟩ stage outcome hwalk hstage
  · cases hstage

end Runs

end Walker

end Lineage
