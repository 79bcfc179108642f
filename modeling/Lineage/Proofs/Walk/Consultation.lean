import Lineage.Proofs.Walk.Ancestry
import Lineage.Proofs.Walk.VisitOrder

namespace Lineage.Walker

variable {σ : Type}

/-- A walk deals with the node at a place, given its ancestors and the world as
    it is by then: with the root once it has said where it starts, and with the
    node that a later turn meets. -/
inductive Consults (walker : Walker σ) (tree : Value) (world : World σ) :
    Place → List Value → World σ → Prop where
  | root {opened : World σ} (hannounce : walker.announce tree world = .ok () opened) :
      Consults walker tree world { node := tree } [] opened
  | turn {turns : Nat} {stage : Stage σ} {place : Place}
      (hstage : walker.stageAt tree world turns = some stage)
      (hmeeting : stage.meeting? = some place) :
      Consults walker tree world place stage.descent.lineage stage.world

section Calls

variable (walker : Walker σ) {place : Place} {lineage : List Value} {world later : World σ}
  {fault : Fault}

/-- The check fails at a node, or it is passed and the visitor fails, or it
    answers with what can neither be understood nor written. -/
inductive Raises (place : Place) (lineage : List Value) (world : World σ) (fault : Fault)
    (later : World σ) : Prop where
  | check
      (hcheck : walker.check place { world with journal := .offered place :: world.journal } =
        .error fault later)
  | visit {checked : World σ}
      (hcheck : walker.check place { world with journal := .offered place :: world.journal } =
        .ok true checked)
      (hvisit : walker.visit place lineage
        { checked with journal := .visited place lineage :: checked.journal } =
          .error fault later)
  | answer {checked answered : World σ} {value : Value}
      (hcheck : walker.check place { world with journal := .offered place :: world.journal } =
        .ok true checked)
      (hvisit : walker.visit place lineage
        { checked with journal := .visited place lineage :: checked.journal } =
          .ok value answered)
      (hanswer : Directive.ofAnswer value answered = .error fault later)

/-- The failure with which a node is left: as it was raised, or located if the
    walk annotates failures. -/
def leaving (place : Place) (lineage : List Value) (store : Store) (fault : Fault) : Fault :=
  if walker.annotate then located store place.node lineage fault else fault

variable {walker}

theorem Raises.consult_fails (hraises : walker.Raises place lineage world fault later) :
    walker.consult place lineage world = .error fault later := by
  cases hraises with
  | check hcheck => simp [consult, Act.record, bind, EStateM.bind, hcheck]
  | visit hcheck hvisit => simp [consult, Act.record, bind, EStateM.bind, hcheck, hvisit]
  | answer hcheck hvisit hanswer =>
    simp [consult, Act.record, bind, EStateM.bind, hcheck, hvisit, hanswer]

theorem Raises.one_fails (hraises : walker.Raises place lineage world fault later) :
    walker.one place lineage world =
      .error (walker.leaving place lineage later.store fault) later := by
  have hconsult := hraises.consult_fails
  unfold one leaving
  split
  · simp [Act.rescue, Act.store, Act.ofExcept, bind, EStateM.bind, hconsult]
  · exact hconsult

/-- A node is dealt with by the check, the visitor and the annotation alone. -/
theorem one_congr {other : Walker σ} (hannotate : other.annotate = walker.annotate)
    (hcheck : other.check place = walker.check place)
    (hvisit : other.visit place lineage = walker.visit place lineage) :
    other.one place lineage = walker.one place lineage := by
  have hconsult : other.consult place lineage = walker.consult place lineage := by
    simp only [consult, hcheck, hvisit]
  simp only [one, hannotate, hconsult]

end Calls

section Walks

variable {walker : Walker σ} {tree : Value} {world before : World σ} {place : Place}
  {lineage : List Value}

/-- The nearest ancestor of a node that is dealt with is its parent; the root
    has neither. -/
theorem Consults.headD_lineage (hconsults : walker.Consults tree world place lineage before) :
    lineage.headD .null = place.parent := by
  cases hconsults with
  | root hannounce => rfl
  | turn hstage hmeeting =>
    obtain ⟨outer, hframes, _, _⟩ := Stage.meeting?_eq_some hmeeting
    rw [← (Ancestry.of_stageAt hstage).parents, hframes]
    rfl

/-- A turn that fails ends the walk. -/
theorem walk_fails_of_step {turns : Nat} {stage : Stage σ} {fault : Fault} {later : World σ}
    (hstage : walker.stageAt tree world turns = some stage)
    (hstep : walker.step stage.descent stage.world = .error fault later) (more : Nat) :
    walker.walk (turns + 1 + more) tree world = some (.error fault later) := by
  refine walk_mono ?_
  rw [walk_of_stage hstage, run]
  rw [hstep]

/-- A node that is not dealt with well ends the walk. -/
theorem Consults.walk_fails (hconsults : walker.Consults tree world place lineage before)
    {fault : Fault} {later : World σ}
    (hone : walker.one place lineage before = .error fault later) :
    ∃ fuel, ∀ more, walker.walk (fuel + more) tree world = some (.error fault later) := by
  cases hconsults with
  | root hannounce =>
    refine ⟨0, fun more => ?_⟩
    rw [walk, start_fails walker hannounce hone]
  | @turn turns stage _ hstage hmeeting =>
    refine ⟨turns + 1, walk_fails_of_step hstage ?_⟩
    obtain ⟨⟨frames, lineage, walked⟩, middle⟩ := stage
    obtain ⟨outer, hframes, hnode, hchild⟩ := Stage.meeting?_eq_some hmeeting
    simp only at hframes
    subst hframes
    exact step_child_fails walker hnode hchild hone

/-- An outcome as what the last turn of a walk comes to. -/
def Outcome.turn : Outcome σ → EStateM.Result Fault (World σ) Step
  | .ok ending final => .ok (.done ending) final
  | .error fault final => .error fault final

theorem run_cases {fuel : Nat} {descent : Descent} {outcome : Outcome σ}
    (hrun : walker.run fuel (.more descent) world = some outcome) :
    ∃ turns stage, walker.after turns ⟨descent, world⟩ = some stage ∧
      walker.step stage.descent stage.world = outcome.turn := by
  induction fuel generalizing descent world with
  | zero => cases hrun
  | succ fuel ih =>
    rcases hstep : walker.step descent world with ⟨step, later⟩ | ⟨fault, later⟩
    · simp only [run, hstep] at hrun
      cases step with
      | done ending =>
        cases fuel <;>
        · cases hrun
          exact ⟨0, _, rfl, hstep⟩
      | more next =>
        obtain ⟨turns, stage, hafter, hlast⟩ := ih hrun
        exact ⟨turns + 1, stage, by rw [after_succ_of_step hstep, hafter], hlast⟩
    · simp only [run, hstep] at hrun
      cases hrun
      exact ⟨0, _, rfl, hstep⟩

/-- A walk comes to its outcome at the root or at a later turn. -/
theorem walk_cases {fuel : Nat} {outcome : Outcome σ}
    (hwalk : walker.walk fuel tree world = some outcome) :
    walker.start tree world = outcome.turn ∨
      ∃ turns stage, walker.stageAt tree world turns = some stage ∧
        walker.step stage.descent stage.world = outcome.turn := by
  rcases hstart : walker.start tree world with ⟨step, later⟩ | ⟨fault, later⟩
  · simp only [walk, hstart] at hwalk
    cases step with
    | done ending =>
      left
      cases fuel <;>
      · cases hwalk
        rfl
    | more descent =>
      right
      obtain ⟨turns, stage, hafter, hlast⟩ := run_cases hwalk
      refine ⟨turns, stage, ?_, hlast⟩
      simp only [stageAt, hstart, hafter]
  · simp only [walk, hstart] at hwalk
    cases hwalk
    exact .inl rfl

/-- A walk that fails does so at the root or at a later turn. -/
theorem walk_fails_cases {fuel : Nat} {fault : Fault} {final : World σ}
    (hwalk : walker.walk fuel tree world = some (.error fault final)) :
    walker.start tree world = .error fault final ∨
      ∃ turns stage, walker.stageAt tree world turns = some stage ∧
        walker.step stage.descent stage.world = .error fault final :=
  walk_cases hwalk

/-- There is no turn after the one that the outcome comes from. -/
theorem stageAt_succ_eq_none {turns : Nat} {stage : Stage σ} {outcome : Outcome σ}
    (hstage : walker.stageAt tree world turns = some stage)
    (hlast : walker.step stage.descent stage.world = outcome.turn) :
    walker.stageAt tree world (turns + 1) = none := by
  rw [Option.eq_none_iff_forall_not_mem]
  intro next hnext
  obtain ⟨middle, hmiddle, hstep⟩ := stageAt_succ hnext
  rw [hstage] at hmiddle
  cases hmiddle
  rw [hlast] at hstep
  cases outcome <;> cases hstep

theorem stageAt_succ_of_step {turns : Nat} {stage : Stage σ} {next : Descent} {later : World σ}
    (hstage : walker.stageAt tree world turns = some stage)
    (hstep : walker.step stage.descent stage.world = .ok (.more next) later) :
    walker.stageAt tree world (turns + 1) = some ⟨next, later⟩ := by
  simp only [stageAt] at hstage ⊢
  split at hstage
  · exact after_succ_iff.mpr ⟨stage, hstage, hstep⟩
  · cases hstage

end Walks

section Congruence

variable {walker other : Walker σ} {tree : Value} {world : World σ}
  (hreverse : other.reverse = walker.reverse)
  (hone : ∀ place lineage before, walker.Consults tree world place lineage before →
    other.one place lineage before = walker.one place lineage before)

include hreverse hone

theorem start_congr : other.start tree world = walker.start tree world := by
  have hopens : other.announce tree world = walker.announce tree world := by
    simp only [announce, hreverse]
  rcases walker.announce_cases tree world with ⟨fault, -, hannounce⟩ | ⟨message, -, hannounce⟩
  · rw [walker.start_announce_fails hannounce,
      other.start_announce_fails (hopens.trans hannounce)]
  have hsame := hopens.trans hannounce
  have henter : ∀ directive, other.enter ⟨[], [], 1⟩ tree directive =
      walker.enter ⟨[], [], 1⟩ tree directive := by
    intro directive
    simp only [enter, startOf, hreverse]
  have hroot := hone _ _ _ (.root hannounce)
  rcases hresult : walker.one { node := tree } [] (world.told message) with
    ⟨directive, later⟩ | ⟨fault, later⟩
  · rw [hresult] at hroot
    by_cases hexit : directive.action = .action .exit
    · rw [start_exits other hsame hroot hexit, start_exits walker hannounce hresult hexit]
    · rw [start_enters other hsame hroot hexit, start_enters walker hannounce hresult hexit,
        henter]
  · rw [hresult] at hroot
    rw [start_fails other hsame hroot, start_fails walker hannounce hresult]

theorem step_congr {turns : Nat} {stage : Stage σ}
    (hstage : walker.stageAt tree world turns = some stage) :
    other.step stage.descent stage.world = walker.step stage.descent stage.world :=
  step_congr_of_meeting hreverse fun place hmeeting => hone place _ _ (.turn hstage hmeeting)

/-- A walk depends on its check and visitor only by what they do at the nodes
    that it deals with: any that do the same there make the same walk. -/
theorem stageAt_congr (turns : Nat) :
    other.stageAt tree world turns = walker.stageAt tree world turns := by
  have hafter : ∀ more turns stage, walker.stageAt tree world turns = some stage →
      other.after more stage = walker.after more stage := by
    intro more
    induction more with
    | zero => exact fun _ _ _ => rfl
    | succ more ih =>
      intro turns stage hstage
      simp only [after, step_congr hreverse hone hstage]
      split
      · next hstep => exact ih _ _ (stageAt_succ_of_step hstage hstep)
      · rfl
  simp only [stageAt, start_congr hreverse hone]
  split
  · next descent later hstart =>
    refine hafter turns 0 ⟨descent, later⟩ ?_
    simp only [stageAt, hstart]
    rfl
  · rfl

theorem walk_congr (fuel : Nat) :
    other.walk fuel tree world = walker.walk fuel tree world := by
  have hrun : ∀ fuel turns stage, walker.stageAt tree world turns = some stage →
      other.run fuel (.more stage.descent) stage.world =
        walker.run fuel (.more stage.descent) stage.world := by
    intro fuel
    induction fuel with
    | zero => exact fun _ _ _ => rfl
    | succ fuel ih =>
      intro turns stage hstage
      simp only [run, step_congr hreverse hone hstage]
      split
      · next step later hstep =>
        cases step with
        | done ending => cases fuel <;> rfl
        | more next => exact ih _ _ (stageAt_succ_of_step hstage hstep)
      · rfl
  simp only [walk, start_congr hreverse hone]
  split
  · next step later hstart =>
    cases step with
    | done ending => cases fuel <;> rfl
    | more descent =>
      refine hrun fuel 0 ⟨descent, later⟩ ?_
      simp only [stageAt, hstart]
      rfl
  · rfl

end Congruence

end Lineage.Walker
