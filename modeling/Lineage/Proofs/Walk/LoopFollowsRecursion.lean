import Lineage.Proofs.Walk.Recursion

namespace Lineage.Walker

variable {σ : Type}

/-- The loop of a walk, from a stage on, does what a part of the recursion
    comes to. A part that is done with leaves the loop, some turns later, with
    `rest` still to be done; one that stops the walk stops the loop at a turn,
    at a child that the loop may fail to tell of; one that meets the limit is
    met again in as many turns at least. -/
def Mirrors {α : Type} (walker : Walker σ) (limit : Nat) (stage : Stage σ)
    (rest : α → Nat → Descent) : EStateM.Result Halt (World σ) α → Prop
  | .ok a world => ∃ turns walked, 0 < turns ∧
      walker.after turns stage = some ⟨rest a walked, world⟩
  | .error (.exited place) world => place.parent ≠ .null ∧
      ∃ turns last, walker.after turns stage = some last ∧
        EndsAt place.node world (walker.step last.descent last.world)
  | .error (.failed fault) world => ∃ turns last, walker.after turns stage = some last ∧
      walker.step last.descent last.world = .error fault world
  | .error .unfinished world => ∃ turns descent, limit ≤ turns ∧
      walker.after turns stage = some ⟨descent, world⟩

section Composition

variable {α β : Type} {walker : Walker σ} {limit : Nat} {stage : Stage σ}

/-- What holds after some turns holds before them. -/
theorem Mirrors.of_after {turns bound : Nat} {middle : Stage σ} {rest : α → Nat → Descent}
    {result : EStateM.Result Halt (World σ) α}
    (hafter : walker.after turns stage = some middle) (hbound : bound ≤ turns + limit)
    (hmirrors : walker.Mirrors limit middle rest result) :
    walker.Mirrors bound stage rest result := by
  rcases result with ⟨a, world⟩ | ⟨halt, world⟩
  · obtain ⟨more, walked, hpositive, hmore⟩ := hmirrors
    exact ⟨turns + more, walked, by omega, by rw [after_add hafter, hmore]⟩
  · cases halt with
    | exited place =>
      obtain ⟨hparent, more, last, hmore, hends⟩ := hmirrors
      exact ⟨hparent, turns + more, last, by rw [after_add hafter, hmore], hends⟩
    | failed fault =>
      obtain ⟨more, last, hmore, hstep⟩ := hmirrors
      exact ⟨turns + more, last, by rw [after_add hafter, hmore], hstep⟩
    | unfinished =>
      obtain ⟨more, descent, hlimit, hmore⟩ := hmirrors
      exact ⟨turns + more, descent, by omega, by rw [after_add hafter, hmore]⟩

/-- What holds after a turn holds before it, with a limit higher by one. -/
theorem Mirrors.of_step {rest : α → Nat → Descent} {descent next : Descent}
    {world later : World σ} {result : EStateM.Result Halt (World σ) α}
    (hstep : walker.step descent world = .ok (.more next) later)
    (hmirrors : walker.Mirrors limit ⟨next, later⟩ rest result) :
    walker.Mirrors (limit + 1) ⟨descent, world⟩ rest result := by
  have hafter : walker.after 1 ⟨descent, world⟩ = some ⟨next, later⟩ := by
    rw [after_succ_of_step hstep]
    rfl
  exact hmirrors.of_after hafter (by omega)

/-- Two parts of the recursion, one after the other. The first takes a turn at
    least, which makes up for the lower limit of the second. -/
theorem Mirrors.bind {first : Visiting σ α} {second : α → Visiting σ β} {world : World σ}
    {middle : α → Nat → Descent} {rest : β → Nat → Descent}
    (hfirst : walker.Mirrors (limit + 1) stage middle (first world))
    (hsecond : ∀ a walked later,
      walker.Mirrors limit ⟨middle a walked, later⟩ rest (second a later)) :
    walker.Mirrors (limit + 1) stage rest ((first >>= second) world) := by
  show walker.Mirrors (limit + 1) stage rest (EStateM.bind first second world)
  unfold EStateM.bind
  rcases hresult : first world with ⟨a, later⟩ | ⟨halt, later⟩
  · rw [hresult] at hfirst
    obtain ⟨turns, walked, hpositive, hafter⟩ := hfirst
    exact (hsecond a walked later).of_after hafter (by omega)
  · rw [hresult] at hfirst
    cases halt <;> exact hfirst

/-- A part whose result is only turned into another takes no turn for it. -/
theorem Mirrors.map {part : Visiting σ α} {f : α → β} {world : World σ}
    {rest : β → Nat → Descent}
    (hpart : walker.Mirrors limit stage (fun a => rest (f a)) (part world)) :
    walker.Mirrors limit stage rest ((part >>= fun a => pure (f a)) world) := by
  show walker.Mirrors limit stage rest (EStateM.bind part (fun a => pure (f a)) world)
  unfold EStateM.bind
  rcases hresult : part world with ⟨a, later⟩ | ⟨halt, later⟩
  · rw [hresult] at hpart
    exact hpart
  · rw [hresult] at hpart
    cases halt <;> exact hpart

end Composition

section Simulation

variable (walker : Walker σ) {limit : Nat} {outer : List Frame} {lineage : List Value}
  {parent cursor child : Value} {walked : Nat} {world : World σ}

/-- If the loop keeps up with the recursion below a child, then a turn on that
    child and the turns below it do what visiting it comes to. The loop has
    moved the cursor before it went down; nothing reads it until it is back. -/
theorem visitOne_mirrored
    (hloop : ∀ outer lineage parent cursor walked world,
      walker.Mirrors limit ⟨⟨⟨parent, cursor⟩ :: outer, lineage, walked⟩, world⟩
        (fun _ walked => ⟨outer, lineage.tail, walked⟩)
        (walker.visitChildren limit lineage parent cursor world))
    (hnode : child ≠ .null)
    (hchild : world.store.childAt (world.store.children parent) cursor = .ok (some child)) :
    walker.Mirrors (limit + 1) ⟨⟨⟨parent, cursor⟩ :: outer, lineage, walked⟩, world⟩
      (fun index walked => ⟨⟨parent, walker.cursorAfter cursor index⟩ :: outer, lineage, walked⟩)
      (walker.visitOne (walker.visitChildren limit) lineage ⟨child, cursor, parent⟩ world) := by
  rcases hone : walker.one ⟨child, cursor, parent⟩ lineage world with
    ⟨directive, later⟩ | ⟨fault, later⟩
  · by_cases hexit : directive.action = .action .exit
    · rw [visitOne_exits walker _ _ _ hone hexit]
      have hparent : parent ≠ .null := by
        rintro rfl
        cases hchild
      exact ⟨hparent, 0, _, rfl, step_child_ends walker hnode hchild hone hexit⟩
    · by_cases hstay : later.store.children child = .null ∨ directive.action = .action .skip
      · rw [visitOne_stays walker _ _ _ hone hexit hstay]
        refine ⟨1, walked + 1, Nat.one_pos, ?_⟩
        rw [after_succ_of_step (step_child_stays walker hnode hchild hone hexit hstay)]
        rfl
      · rcases hstart : walker.startOf later.store (later.store.children child) with
          fault | inside
        · rw [visitOne_enter_fails walker _ _ _ hone hexit hstay hstart]
          exact ⟨0, _, rfl, step_child_enter_fails walker hnode hchild hone hexit hstay hstart⟩
        · rw [visitOne_descends walker _ _ _ hone hexit hstay hstart]
          have hstep : walker.step ⟨⟨parent, cursor⟩ :: outer, lineage, walked⟩ world =
              .ok (.more ⟨⟨child, inside⟩ ::
                ⟨parent, walker.cursorAfter cursor directive.index⟩ :: outer,
                child :: lineage, walked + 1⟩) later :=
            step_child_descends walker hnode hchild hone hexit hstay hstart
          exact Mirrors.map (Mirrors.of_step hstep (hloop _ _ child inside _ later))
  · rw [visitOne_fails walker _ _ _ hone]
    exact ⟨0, _, rfl, step_child_fails walker hnode hchild hone⟩

/-- The loop keeps up with the recursion over the children of a node, whatever
    frames are below. The induction is on the limit, which goes down with each
    child and with each level. -/
theorem visitChildren_mirrored (limit : Nat) : ∀ outer lineage parent cursor walked world,
    walker.Mirrors limit ⟨⟨⟨parent, cursor⟩ :: outer, lineage, walked⟩, world⟩
      (fun _ walked => ⟨outer, lineage.tail, walked⟩)
      (walker.visitChildren limit lineage parent cursor world) := by
  induction limit with
  | zero =>
    intro outer lineage parent cursor walked world
    exact ⟨0, _, Nat.le_refl 0, rfl⟩
  | succ limit ih =>
    intro outer lineage parent cursor walked world
    rcases hchild : world.store.childAt (world.store.children parent) cursor with
      fault | child
    · rw [visitChildren_fails walker hchild]
      exact ⟨0, _, rfl, step_fails walker hchild⟩
    · cases child with
      | none =>
        rw [visitChildren_ends walker hchild]
        refine ⟨1, walked, Nat.one_pos, ?_⟩
        rw [after_succ_of_step (step_leaves walker hchild)]
        rfl
      | some child =>
        by_cases hnode : child = .null
        · subst hnode
          rw [visitChildren_passes walker hchild]
          have hstep := @step_passes σ walker ⟨parent, cursor⟩ outer lineage walked world hchild
          exact Mirrors.of_step hstep (ih outer lineage parent _ walked world)
        · rw [visitChildren_child walker hnode hchild]
          refine Mirrors.bind (walker.visitOne_mirrored ih hnode hchild) ?_
          intro index walked later
          exact ih outer lineage parent _ walked later

end Simulation

/-- An outcome of the loop is what a recursive walk came to: the same ending or
    failure in the same world, but for the message with which a walk that was
    not broken off by a failure closes. A loop that is ended at a child of which
    it cannot tell, since its label cannot be written, fails with that. -/
inductive Tells : Outcome σ → EStateM.Result Halt (World σ) Unit → Prop where
  | finished (world : World σ) (message : String) :
      Tells (.ok .finished (world.told message)) (.ok () world)
  | exited (place : Place) (world : World σ) (message : String)
      (hlabel : place.parent = .null ∨ world.store.CanLabel place.node) :
      Tells (.ok .exited (world.told message)) (.error (.exited place) world)
  | untold (place : Place) (world : World σ) {fault : Fault} (hparent : place.parent ≠ .null)
      (hhead : world.store.unwritable? (world.store.head place.node) = some fault) :
      Tells (.error fault world) (.error (.exited place) world)
  | failed (fault : Fault) (world : World σ) :
      Tells (.error fault world) (.error (.failed fault) world)

/-- The loop is over with what the recursion came to, or it is still under way,
    after no fewer turns than the limit, in the world in which the recursion
    met the limit. -/
def KeepsUp (walker : Walker σ) (limit : Nat) (tree : Value) (world : World σ)
    (result : EStateM.Result Halt (World σ) Unit) : Prop :=
  (∃ fuel outcome, walker.walk fuel tree world = some outcome ∧ Tells outcome result) ∨
    ∃ turns stage, limit ≤ turns ∧ walker.stageAt tree world turns = some stage ∧
      result = .error .unfinished stage.world

section Root

variable {walker : Walker σ} {limit : Nat} {tree : Value} {world opened : World σ}

/-- Once the root is entered, what the loop does over its children is what the
    whole walk does. -/
theorem KeepsUp.of_mirrors {descent : Descent} {later : World σ}
    {result : EStateM.Result Halt (World σ) Unit}
    (hstart : walker.start tree world = .ok (.more descent) later)
    (hmirrors : walker.Mirrors limit ⟨descent, later⟩ (fun _ walked => ⟨[], [], walked⟩) result) :
    walker.KeepsUp limit tree world result := by
  have hstage : ∀ turns, walker.stageAt tree world turns = walker.after turns ⟨descent, later⟩ := by
    intro turns
    simp only [stageAt, hstart]
  rcases result with ⟨_, last⟩ | ⟨halt, last⟩
  · obtain ⟨turns, walked, _, hafter⟩ := hmirrors
    have hwalk := walk_of_stage ((hstage turns).trans hafter)
    rw [run, step_finished] at hwalk
    exact Or.inl ⟨turns + 1, _, hwalk, .finished last _⟩
  · cases halt with
    | exited place =>
      obtain ⟨hparent, turns, final, hafter, hends⟩ := hmirrors
      have hwalk := walk_of_stage ((hstage turns).trans hafter)
      rw [run] at hwalk
      cases hstep : walker.step final.descent final.world with
      | ok step ended =>
        rw [hstep] at hwalk hends
        cases hends with
        | told hlabel message =>
          exact Or.inl ⟨turns + 1, _, hwalk, .exited place last message (.inr hlabel)⟩
      | error fault ended =>
        rw [hstep] at hwalk hends
        cases hends with
        | untold hhead => exact Or.inl ⟨turns + 1, _, hwalk, .untold place last hparent hhead⟩
    | failed fault =>
      obtain ⟨turns, final, hafter, hstep⟩ := hmirrors
      have hwalk := walk_of_stage ((hstage turns).trans hafter)
      rw [run, hstep] at hwalk
      exact Or.inl ⟨turns + 1, _, hwalk, .failed fault last⟩
    | unfinished =>
      obtain ⟨turns, inside, hlimit, hafter⟩ := hmirrors
      exact Or.inr ⟨turns, _, hlimit, (hstage turns).trans hafter, rfl⟩

/-- The loop keeps up with the recursion from the root on, which is dealt with
    once the loop has told where it starts. That happens before the loop, in the
    five ways in which it does to a child. -/
theorem walkRecursively_kept_up (walker : Walker σ) (limit : Nat)
    (hannounce : walker.announce tree world = .ok () opened) :
    walker.KeepsUp limit tree world (walker.walkRecursively limit tree opened) := by
  simp only [walkRecursively, bind, EStateM.bind, pure, EStateM.pure]
  rcases hone : walker.one { node := tree } [] opened with
    ⟨directive, later⟩ | ⟨fault, later⟩
  · by_cases hexit : directive.action = .action .exit
    · rw [visitOne_exits walker _ _ _ hone hexit]
      refine Or.inl
        ⟨0, .ok .exited (later.told "Traversal exited at root"), ?_, .exited _ later _ (.inl rfl)⟩
      rw [walk, start_exits walker hannounce hone hexit]
      rfl
    · have hstart := start_enters walker hannounce hone hexit
      simp only [bind, EStateM.bind] at hstart
      by_cases hstay : later.store.children tree = .null ∨ directive.action = .action .skip
      · rw [visitOne_stays walker _ _ _ hone hexit hstay]
        rw [enter_stays walker _ tree directive later hstay] at hstart
        have hwalk : walker.walk 1 tree world =
            walker.run 1 (.more ⟨[], [], 1⟩) later := by
          simp only [walk, hstart]
          rfl
        exact Or.inl ⟨1, _, hwalk, .finished later _⟩
      · rcases hcursor : walker.startOf later.store (later.store.children tree) with
          fault | cursor
        · rw [visitOne_enter_fails walker _ _ _ hone hexit hstay hcursor]
          rw [enter_fails walker _ tree directive later hstay hcursor] at hstart
          refine Or.inl ⟨0, _, ?_, .failed fault later⟩
          simp only [walk, hstart]
        · rw [visitOne_descends walker _ _ _ hone hexit hstay hcursor]
          rw [enter_descends walker _ tree directive later hstay hcursor] at hstart
          have hbelow := walker.visitChildren_mirrored limit [] [tree] tree cursor 1 later
          show walker.KeepsUp limit tree world
            (((walker.visitChildren limit [tree] tree cursor >>= fun _ => pure directive.index)
              >>= fun _ => pure ()) later)
          exact KeepsUp.of_mirrors hstart (Mirrors.map (Mirrors.map hbelow))
  · rw [visitOne_fails walker _ _ _ hone]
    refine Or.inl ⟨0, _, ?_, .failed fault later⟩
    rw [walk, start_fails walker hannounce hone]

/-- A loop that is over ends with what the recursion comes to, since it is over
    before the recursion can meet the limit. -/
theorem tells_of_walk {fuel : Nat} {outcome : Outcome σ}
    (hannounce : walker.announce tree world = .ok () opened)
    (hwalk : walker.walk fuel tree world = some outcome) :
    Tells outcome (walker.walkRecursively fuel tree opened) := by
  rcases walker.walkRecursively_kept_up fuel hannounce with
    ⟨other, rival, hrival, htells⟩ | ⟨turns, stage, hlimit, hstage, _⟩
  · exact walk_unique hrival hwalk ▸ htells
  · have hlt := lt_of_walk hwalk hstage
    omega

/-- Once the recursion comes to something under a limit that it does not meet,
    the loop comes to the same. -/
theorem walk_tells {result : EStateM.Result Halt (World σ) Unit}
    (hannounce : walker.announce tree world = .ok () opened)
    (hrecursion : walker.walkRecursively limit tree opened = result)
    (hover : ∀ later, result ≠ .error .unfinished later) :
    ∃ fuel outcome, walker.walk fuel tree world = some outcome ∧ Tells outcome result := by
  rcases walker.walkRecursively_kept_up limit hannounce with htold | ⟨_, _, _, _, hstuck⟩
  · rwa [hrecursion] at htold
  · exact (hover _ (hrecursion.symm.trans hstuck)).elim

/-- The loop finishes if the recursion does. -/
theorem walk_of_recursion {later : World σ}
    (hannounce : walker.announce tree world = .ok () opened)
    (hrecursion : walker.walkRecursively limit tree opened = .ok () later) :
    ∃ fuel message, walker.walk fuel tree world = some (.ok .finished (later.told message)) := by
  obtain ⟨fuel, outcome, hwalk, htells⟩ := walk_tells hannounce hrecursion (by simp)
  cases htells with
  | finished _ message => exact ⟨fuel, message, hwalk⟩

end Root

/-- The loop over frames and the recursion are one walk, for every tree, check,
    visitor and direction, once the loop has told where it starts. A loop that
    ends does so with what the recursion comes to under some limit. Under each
    limit, the recursion is over and the loop ends with the same, or both are
    still under way in the same world, the loop after no fewer turns than the
    limit; so neither ends without the other, and of a walk without end every
    part is the same. A loop that cannot tell where it starts, since the label
    of the root cannot be written, fails with that before any call. -/
theorem walk_agrees_with_recursion (walker : Walker σ) (tree : Value) (world : World σ) :
    (∀ fault, world.store.unwritable? (world.store.head tree) = some fault →
      ∀ fuel, walker.walk fuel tree world = some (.error fault world)) ∧
    (world.store.CanLabel tree → ∃ message,
      (∀ fuel outcome, walker.walk fuel tree world = some outcome →
        ∃ limit, Tells outcome (walker.walkRecursively limit tree (world.told message))) ∧
      ∀ limit,
        (∃ fuel outcome, walker.walk fuel tree world = some outcome ∧
          Tells outcome (walker.walkRecursively limit tree (world.told message))) ∨
        ∃ turns stage, limit ≤ turns ∧ walker.stageAt tree world turns = some stage ∧
          walker.walkRecursively limit tree (world.told message) =
            .error .unfinished stage.world) := by
  refine ⟨fun fault hhead => walker.walk_announce_fails (walker.announce_fails hhead), ?_⟩
  intro hlabel
  obtain ⟨message, hannounce⟩ := walker.announce_tells hlabel
  refine ⟨message, ?_, fun limit => walker.walkRecursively_kept_up limit hannounce⟩
  intro fuel outcome hwalk
  exact ⟨fuel, tells_of_walk hannounce hwalk⟩

/-- A walk that goes by every node and lets the walk go on. -/
def stroll : Walker Unit where
  check _ := pure true
  visit _ _ := pure .null
  reverse := false
  annotate := false

/-- The recursion visits a leaf whose type has a digit too many to be written.
    The loop fails before it calls anything, since it writes the type. -/
theorem stroll_fails_at_numberLeaf :
    (∃ final, stroll.walkRecursively 1 (.cell ⟨0⟩)
        ⟨Store.numberLeaf (10 ^ Numeral.maxDigits), [], ()⟩ = .ok () final ∧
      visitsOf final.journal = [({ node := .cell ⟨0⟩ }, [])]) ∧
    ∀ fuel, stroll.walk fuel (.cell ⟨0⟩) ⟨Store.numberLeaf (10 ^ Numeral.maxDigits), [], ()⟩ =
      some (.error (.of .unwritableInteger)
        ⟨Store.numberLeaf (10 ^ Numeral.maxDigits), [], ()⟩) := by
  have hvisits : ∀ n, ∃ final, stroll.walkRecursively 1 (.cell ⟨0⟩) ⟨Store.numberLeaf n, [], ()⟩ =
        .ok () final ∧
      visitsOf final.journal = [({ node := .cell ⟨0⟩ }, [])] :=
    fun n => ⟨_, rfl, rfl⟩
  have hfails : ∀ n, 10 ^ Numeral.maxDigits ≤ n → ∀ fuel,
      stroll.walk fuel (.cell ⟨0⟩) ⟨Store.numberLeaf n, [], ()⟩ =
        some (.error (.of .unwritableInteger) ⟨Store.numberLeaf n, [], ()⟩) :=
    fun n hlong => stroll.walk_announce_fails
      (stroll.announce_fails (Store.unwritable?_numberLeaf hlong))
  exact ⟨hvisits _, hfails _ (Nat.le_refl _)⟩

end Lineage.Walker
