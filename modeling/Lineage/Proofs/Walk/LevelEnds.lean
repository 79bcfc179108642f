import Lineage.Proofs.Walk.Ancestry
import Lineage.Proofs.Walk.Consultation

namespace Lineage.Walker

variable {σ : Type}

section Entering

variable (walker : Walker σ)

/-- The levels after a node that lets a walk go on. The cursor of the node's own
    level is moved as its directive says, and the node gets a level of its own
    unless it has no children or they are left out. -/
inductive Entered (store : Store) (place : Place) (directive : Directive) (outer : List Frame) :
    List Frame → Prop where
  | stays (hstay : store.children place.node = .null ∨ directive.action = .action .skip) :
      Entered store place directive outer
        (⟨place.parent, walker.cursorAfter place.index directive.index⟩ :: outer)
  | into {inside : Value}
      (henter : ¬ (store.children place.node = .null ∨ directive.action = .action .skip))
      (hstart : walker.startOf store (store.children place.node) = .ok inside) :
      Entered store place directive outer
        (⟨place.node, inside⟩ ::
          ⟨place.parent, walker.cursorAfter place.index directive.index⟩ :: outer)

variable {walker} {stage : Stage σ} {next : Descent} {later final : World σ} {place : Place}
  {directive : Directive}
  (hmeeting : stage.meeting? = some place)
  (hone : walker.one place stage.descent.lineage stage.world = .ok directive later)

include hmeeting hone

/-- A child at which the visitor ends the walk ends it in the same turn. -/
theorem exits_of_meeting (hexit : directive.action = .action .exit) :
    EndsAt place.node later (walker.step stage.descent stage.world) := by
  obtain ⟨outer, hframes, hnode, hchild⟩ := Stage.meeting?_eq_some hmeeting
  obtain ⟨⟨frames, lineage, walked⟩, before⟩ := stage
  simp only at hframes hone hchild
  subst hframes
  exact step_child_ends walker hnode hchild hone hexit

/-- Any other child is entered in the same turn, unless it has children with
    which none can start. -/
theorem enters_of_meeting (hexit : directive.action ≠ .action .exit) :
    ∃ outer, stage.descent.frames = ⟨place.parent, place.index⟩ :: outer ∧
      ((∃ next, walker.step stage.descent stage.world = .ok (.more next) later ∧
          walker.Entered later.store place directive outer next.frames) ∨
        ∃ fault, walker.step stage.descent stage.world = .error fault later ∧
          later.store.children place.node ≠ .null ∧
          walker.startOf later.store (later.store.children place.node) = .error fault) := by
  obtain ⟨outer, hframes, hnode, hchild⟩ := Stage.meeting?_eq_some hmeeting
  obtain ⟨⟨frames, lineage, walked⟩, before⟩ := stage
  simp only at hframes hone hchild
  subst hframes
  refine ⟨outer, rfl, ?_⟩
  by_cases hstay : later.store.children place.node = .null ∨ directive.action = .action .skip
  · exact Or.inl ⟨_, step_child_stays walker hnode hchild hone hexit hstay, .stays hstay⟩
  · rcases hstart : walker.startOf later.store (later.store.children place.node) with
      fault | inside
    · exact Or.inr ⟨fault, step_child_enter_fails walker hnode hchild hone hexit hstay hstart,
        fun hnull => hstay (Or.inl hnull), rfl⟩
    · exact Or.inl ⟨_, step_child_descends walker hnode hchild hone hexit hstay hstart,
        .into hstay hstart⟩

/-- A turn that meets a node and goes on has entered it. -/
theorem entered_of_step
    (hstep : walker.step stage.descent stage.world = .ok (.more next) final) :
    final = later ∧ ∃ outer, stage.descent.frames = ⟨place.parent, place.index⟩ :: outer ∧
      walker.Entered later.store place directive outer next.frames := by
  by_cases hexit : directive.action = .action .exit
  · have hends := exits_of_meeting hmeeting hone hexit
    rw [hstep] at hends
    cases hends
  · obtain ⟨outer, hframes, ⟨reply, henters, hentered⟩ | ⟨fault, hfails, _⟩⟩ :=
      enters_of_meeting hmeeting hone hexit
    · rw [henters] at hstep
      cases hstep
      exact ⟨rfl, outer, hframes, hentered⟩
    · rw [hfails] at hstep
      cases hstep

end Entering

/-- What a turn does to the levels: it leaves the innermost, it stays on it with
    the cursor moved, or it goes into the node that it met. -/
theorem step_levels {walker : Walker σ} {stage : Stage σ} {next : Descent} {final : World σ}
    (hstep : walker.step stage.descent stage.world = .ok (.more next) final) :
    ∃ frame outer, stage.descent.frames = frame :: outer ∧
      (next.frames = outer ∨ (∃ cursor, next.frames = ⟨frame.parent, cursor⟩ :: outer) ∨
        ∃ place directive inside, stage.meeting? = some place ∧
          walker.one place stage.descent.lineage stage.world = .ok directive final ∧
          frame = ⟨place.parent, place.index⟩ ∧
          next.frames = ⟨place.node, inside⟩ ::
            ⟨place.parent, walker.cursorAfter place.index directive.index⟩ :: outer) := by
  obtain ⟨frame, outer, hframes, hnext⟩ := walker.step_more_cases hstep
  refine ⟨frame, outer, hframes, ?_⟩
  rcases hnext with ⟨houter, _⟩ | ⟨cursor, hsame, _⟩ |
    ⟨place, directive, _, _, hmeeting, hone, _, _, _, _⟩
  · exact Or.inl houter
  · exact Or.inr (Or.inl ⟨cursor, hsame⟩)
  · obtain ⟨_, rest, hrest, hentered⟩ := entered_of_step hmeeting hone hstep
    obtain ⟨rfl, rfl⟩ := List.cons.inj (hframes.symm.trans hrest)
    generalize hgone : next.frames = frames at hentered
    cases hentered with
    | stays => exact Or.inr (Or.inl ⟨_, rfl⟩)
    | @into inside => exact Or.inr (Or.inr ⟨place, directive, inside, hmeeting, hone, rfl, rfl⟩)

/-- Where a level has no child at its cursor, a turn meets nothing and leaves the
    level. -/
theorem leaves_of_childAt {walker : Walker σ} {stage : Stage σ} {frame : Frame}
    {outer : List Frame} (hframes : stage.descent.frames = frame :: outer)
    (hchild : stage.world.store.childAt (stage.world.store.children frame.parent) frame.cursor =
      .ok none) :
    stage.meeting? = none ∧
      walker.step stage.descent stage.world =
        .ok (.more ⟨outer, stage.descent.lineage.tail, stage.descent.walked⟩) stage.world := by
  obtain ⟨⟨frames, lineage, walked⟩, world⟩ := stage
  simp only at hframes hchild
  subst hframes
  refine ⟨?_, step_leaves walker hchild⟩
  simp only [Stage.meeting?, hchild]

section Outside

variable (walker : Walker σ) (tree : Value) (world : World σ)

/-- By some turn a node was met and gone into. The levels outside of its own are
    those of that turn, with the cursor moved as the node's directive says. -/
def WentInto (turns : Nat) (node : Value) (outer : List Frame) : Prop :=
  ∃ earlier stage place directive later rest, earlier < turns ∧
    walker.stageAt tree world earlier = some stage ∧ stage.meeting? = some place ∧
    place.node = node ∧
    walker.one place stage.descent.lineage stage.world = .ok directive later ∧
    stage.descent.frames = ⟨place.parent, place.index⟩ :: rest ∧
    outer = ⟨place.parent, walker.cursorAfter place.index directive.index⟩ :: rest

/-- What stands outside of each level: nothing if it is that of the root, or
    else the levels from which its node was gone into. -/
def Nested (turns : Nat) (frames : List Frame) : Prop :=
  ∀ newer frame outer, frames = newer ++ frame :: outer →
    (outer = [] ∧ frame.parent = tree) ∨ walker.WentInto tree world turns frame.parent outer

variable {walker tree world}

theorem WentInto.mono {turns later : Nat} (hle : turns ≤ later) {node : Value}
    {outer : List Frame} (hwent : walker.WentInto tree world turns node outer) :
    walker.WentInto tree world later node outer := by
  obtain ⟨earlier, stage, place, directive, after, rest, hlt, hrest⟩ := hwent
  exact ⟨earlier, stage, place, directive, after, rest, Nat.lt_of_lt_of_le hlt hle, hrest⟩

theorem Nested.mono {turns later : Nat} (hle : turns ≤ later) {frames : List Frame}
    (hnested : walker.Nested tree world turns frames) :
    walker.Nested tree world later frames :=
  fun newer frame outer hsplit => (hnested newer frame outer hsplit).imp_right (.mono hle)

/-- The cursor of a level has no part in what stands outside of it. -/
theorem Nested.moved {turns : Nat} {frame : Frame} {outer : List Frame}
    (hnested : walker.Nested tree world turns (frame :: outer)) (cursor : Value) :
    walker.Nested tree world turns (⟨frame.parent, cursor⟩ :: outer) := by
  intro newer level rest hsplit
  cases newer with
  | nil =>
    obtain ⟨rfl, rfl⟩ := List.cons.inj hsplit
    exact hnested [] frame outer rfl
  | cons first newer =>
    refine hnested (frame :: newer) level rest ?_
    rw [(List.cons.inj hsplit).2]
    rfl

theorem Nested.of_start {descent : Descent} {later : World σ}
    (hstart : walker.start tree world = .ok (.more descent) later) :
    walker.Nested tree world 0 descent.frames := by
  intro newer frame outer hsplit
  rcases walker.start_more_cases hstart with rfl | ⟨cursor, rfl⟩
  · simp at hsplit
  · cases newer with
    | nil =>
      obtain ⟨rfl, rfl⟩ := List.cons.inj hsplit
      exact Or.inl ⟨rfl, rfl⟩
    | cons first newer => simp at hsplit

/-- A turn leaves the levels outside of the innermost as they are. If it goes
    into a node, they and the one it met the node on stand outside of the new one. -/
theorem Nested.step {turns : Nat} {stage next : Stage σ}
    (hnested : walker.Nested tree world turns stage.descent.frames)
    (hstage : walker.stageAt tree world turns = some stage)
    (hstep : walker.step stage.descent stage.world = .ok (.more next.descent) next.world) :
    walker.Nested tree world (turns + 1) next.descent.frames := by
  obtain ⟨frame, outer, hframes, hnext⟩ := step_levels hstep
  have hkept := hnested.mono (Nat.le_succ turns)
  rw [hframes] at hkept
  rcases hnext with houter | ⟨cursor, hsame⟩ |
    ⟨place, directive, inside, hmeeting, hone, rfl, hdeeper⟩
  · intro newer level rest hsplit
    refine hkept (frame :: newer) level rest ?_
    rw [← houter, hsplit, List.cons_append]
  · rw [hsame]
    exact hkept.moved cursor
  · intro newer level rest hsplit
    rw [hdeeper] at hsplit
    cases newer with
    | nil =>
      obtain ⟨rfl, rfl⟩ := List.cons.inj hsplit
      exact Or.inr ⟨turns, stage, place, directive, next.world, outer, Nat.lt_succ_self turns,
        hstage, hmeeting, rfl, hone, hframes, rfl⟩
    | cons first newer =>
      exact hkept.moved _ newer level rest (List.cons.inj hsplit).2

/-- Levels are nested after any number of turns. -/
theorem Nested.of_stageAt {turns : Nat} {stage : Stage σ}
    (hstage : walker.stageAt tree world turns = some stage) :
    walker.Nested tree world turns stage.descent.frames := by
  induction turns generalizing stage with
  | zero =>
    simp only [stageAt] at hstage
    split at hstage
    · next hstart =>
      cases hstage
      exact Nested.of_start hstart
    · cases hstage
  | succ turns ih =>
    obtain ⟨before, hbefore, hstep⟩ := stageAt_succ hstage
    exact (ih hbefore).step hbefore hstep

end Outside

section Within

/-- The levels of a walk that is at one level, or below it inside a node. -/
inductive Within (node : Value) (level : Frame) (outer : List Frame) : List Frame → Prop where
  | level : Within node level outer (level :: outer)
  | below (inner : List Frame) (cursor : Value) :
      Within node level outer (inner ++ ⟨node, cursor⟩ :: level :: outer)

variable {walker : Walker σ} {tree : Value} {world : World σ} {node : Value} {level : Frame}
  {outer : List Frame} {stage : Stage σ}

/-- A walk that has entered a node is at its level or right below. -/
theorem Entered.within {store : Store} {place : Place} {directive : Directive} {frames : List Frame}
    (hentered : walker.Entered store place directive outer frames) :
    Within place.node ⟨place.parent, walker.cursorAfter place.index directive.index⟩ outer
      frames := by
  cases hentered with
  | stays => exact .level
  | into => exact .below [] _

/-- From inside of a node there is no other way out than to the level below which
    the node is. -/
theorem Within.step {next : Stage σ} (hwithin : Within node level outer stage.descent.frames)
    (hstep : walker.step stage.descent stage.world = .ok (.more next.descent) next.world)
    (hleaves : stage.descent.frames = level :: outer → next.descent.frames = outer) :
    Within node level outer next.descent.frames ∨ next.descent.frames = outer := by
  obtain ⟨frame, rest, hframes, hnext⟩ := step_levels hstep
  generalize hhere : stage.descent.frames = frames at hwithin
  rw [hhere] at hframes hleaves
  cases hwithin with
  | level => exact Or.inr (hleaves rfl)
  | below inner cursor =>
    left
    cases inner with
    | nil =>
      obtain ⟨rfl, rfl⟩ := List.cons.inj hframes
      rcases hnext with houter | ⟨moved, hsame⟩ | ⟨place, _, _, _, _, hplace, hdeeper⟩
      · rw [houter]
        exact .level
      · rw [hsame]
        exact .below [] moved
      · obtain ⟨rfl, rfl⟩ := Frame.mk.inj hplace
        rw [hdeeper]
        exact .below [_] _
    | cons first inner =>
      obtain ⟨rfl, rfl⟩ := List.cons.inj hframes
      rcases hnext with houter | ⟨moved, hsame⟩ | ⟨place, _, _, _, _, _, hdeeper⟩
      · rw [houter]
        exact .below inner cursor
      · rw [hsame]
        exact .below (_ :: inner) cursor
      · rw [hdeeper]
        exact .below (_ :: _ :: inner) cursor

/-- A walk stays within a level at which it finds no more children until it gets
    to the levels outside. -/
theorem within_or_left {turns : Nat} (hstage : walker.stageAt tree world turns = some stage)
    (hwithin : Within node level outer stage.descent.frames)
    (hover : ∀ more last, walker.stageAt tree world (turns + more) = some last →
      last.descent.frames = level :: outer →
        last.world.store.childAt (last.world.store.children level.parent) level.cursor = .ok none)
    {more : Nat} {last : Stage σ} (hlast : walker.stageAt tree world (turns + more) = some last) :
    Within node level outer last.descent.frames ∨
      ∃ less left, less ≤ more ∧ walker.stageAt tree world (turns + less) = some left ∧
        left.descent.frames = outer := by
  induction more generalizing last with
  | zero =>
    obtain rfl := Option.some.inj (hstage.symm.trans hlast)
    exact Or.inl hwithin
  | succ more ih =>
    obtain ⟨before, hbefore, hstep⟩ := stageAt_succ hlast
    rcases ih hbefore with hinside | ⟨less, left, hle, hleft⟩
    · have hleaves : before.descent.frames = level :: outer → last.descent.frames = outer := by
        intro hframes
        rw [(leaves_of_childAt hframes (hover more before hbefore hframes)).2] at hstep
        obtain ⟨hleft, _⟩ := EStateM.Result.ok.inj hstep
        rw [← Step.more.inj hleft]
      rcases hinside.step hstep hleaves with hwithin | hout
      · exact Or.inl hwithin
      · exact Or.inr ⟨more + 1, last, Nat.le_refl _, hlast, hout⟩
    · exact Or.inr ⟨less, left, Nat.le_succ_of_le hle, hleft⟩

end Within

end Lineage.Walker
