import Lineage.Proofs.Walk.Annotation

namespace Lineage

variable {σ : Type}

namespace Walker

/-- The same walk, with notes on failures or without. -/
def annotated (walker : Walker σ) (annotate : Bool) : Walker σ :=
  { walker with annotate }

section Nodes

variable {walker : Walker σ} {place : Place} {lineage : List Value} {world later : World σ}
  {fault : Fault}

/-- A node that is not dealt with well is one at which the check or the visitor
    failed, or the reading of its answer. -/
theorem raises_of_consult (hconsult : walker.consult place lineage world = .error fault later) :
    walker.Raises place lineage world fault later := by
  rcases hcheck : walker.check place { world with journal := .offered place :: world.journal } with
    ⟨passed, checked⟩ | ⟨other, checked⟩
  · cases passed with
    | false =>
      rw [consult_rejected walker hcheck] at hconsult
      cases hconsult
    | true =>
      rcases hvisit : walker.visit place lineage
          { checked with journal := .visited place lineage :: checked.journal } with
        ⟨value, final⟩ | ⟨other, final⟩
      · rw [consult_called walker hcheck hvisit] at hconsult
        exact .answer hcheck hvisit hconsult
      · have hraises := Raises.visit hcheck hvisit
        rw [hraises.consult_fails] at hconsult
        cases hconsult
        exact hraises
  · have hraises : walker.Raises place lineage world other checked := .check hcheck
    rw [hraises.consult_fails] at hconsult
    cases hconsult
    exact hraises

/-- Annotation has no part in what is raised. -/
theorem Raises.annotated (hraises : walker.Raises place lineage world fault later)
    (annotate : Bool) : (walker.annotated annotate).Raises place lineage world fault later := by
  cases hraises with
  | check hcheck => exact .check hcheck
  | visit hcheck hvisit => exact .visit hcheck hvisit
  | answer hcheck hvisit hanswer => exact .answer hcheck hvisit hanswer

/-- Annotation makes no difference to a node that is dealt with well. -/
theorem one_annotated {directive : Directive}
    (hone : (walker.annotated false).one place lineage world = .ok directive later)
    (annotate : Bool) :
    (walker.annotated annotate).one place lineage world = .ok directive later :=
  one_of_consult _ hone

theorem raises_of_one
    (hone : (walker.annotated false).one place lineage world = .error fault later) :
    walker.Raises place lineage world fault later :=
  raises_of_consult hone

theorem Raises.one_annotated_fails (hraises : walker.Raises place lineage world fault later) :
    (walker.annotated true).one place lineage world =
      .error (located later.store place.node lineage fault) later :=
  (hraises.annotated true).one_fails

theorem Raises.one_bare_fails (hraises : walker.Raises place lineage world fault later) :
    (walker.annotated false).one place lineage world = .error fault later :=
  (hraises.annotated false).one_fails

end Nodes

section Turns

variable (walker : Walker σ)

/-- A turn is the same with annotation, or the check or the visitor fails at the
    node that it meets and only the failure is another. -/
theorem step_annotated (stage : Stage σ) :
    (walker.annotated true).step stage.descent stage.world =
        (walker.annotated false).step stage.descent stage.world ∨
      ∃ place fault later, stage.meeting? = some place ∧
        walker.Raises place stage.descent.lineage stage.world fault later ∧
        (walker.annotated false).step stage.descent stage.world = .error fault later ∧
        (walker.annotated true).step stage.descent stage.world =
          .error (located later.store place.node stage.descent.lineage fault) later := by
  by_cases hsame : ∀ place, stage.meeting? = some place →
      (walker.annotated true).one place stage.descent.lineage stage.world =
        (walker.annotated false).one place stage.descent.lineage stage.world
  · exact Or.inl (step_congr_of_meeting rfl hsame)
  · right
    obtain ⟨place, hmeeting, hdiffers⟩ : ∃ place, stage.meeting? = some place ∧
        (walker.annotated true).one place stage.descent.lineage stage.world ≠
          (walker.annotated false).one place stage.descent.lineage stage.world := by
      simpa using hsame
    rcases hone : (walker.annotated false).one place stage.descent.lineage stage.world with
      ⟨directive, later⟩ | ⟨fault, later⟩
    · exact (hdiffers (by rw [hone, one_annotated hone])).elim
    · have hraises := raises_of_one hone
      obtain ⟨⟨frames, lineage, walked⟩, world⟩ := stage
      obtain ⟨outer, hframes, hnode, hchild⟩ := Stage.meeting?_eq_some hmeeting
      simp only at hframes
      subst hframes
      exact ⟨place, fault, later, hmeeting, hraises,
        step_child_fails _ hnode hchild hraises.one_bare_fails,
        step_child_fails _ hnode hchild hraises.one_annotated_fails⟩

/-- The same for the root. -/
theorem start_annotated (tree : Value) (world : World σ) :
    (walker.annotated true).start tree world = (walker.annotated false).start tree world ∨
      ∃ opened fault later, (walker.annotated false).announce tree world = .ok () opened ∧
        walker.Raises { node := tree } [] opened fault later ∧
        (walker.annotated false).start tree world = .error fault later ∧
        (walker.annotated true).start tree world =
          .error (located later.store tree [] fault) later := by
  rcases (walker.annotated false).announce_cases tree world with
    ⟨fault, -, hannounce⟩ | ⟨message, -, hannounce⟩
  · have hfails : (walker.annotated true).announce tree world = .error fault world := hannounce
    exact .inl (((walker.annotated true).start_announce_fails hfails).trans
      ((walker.annotated false).start_announce_fails hannounce).symm)
  have hsame : (walker.annotated true).announce tree world = .ok () (world.told message) :=
    hannounce
  rcases hone : (walker.annotated false).one { node := tree } [] (world.told message) with
    ⟨directive, later⟩ | ⟨fault, later⟩
  · left
    have hnoted := one_annotated hone true
    by_cases hexit : directive.action = .action .exit
    · rw [start_exits _ hsame hnoted hexit, start_exits _ hannounce hone hexit]
    · rw [start_enters _ hsame hnoted hexit, start_enters _ hannounce hone hexit]
      rfl
  · have hraises := raises_of_one hone
    exact Or.inr ⟨_, fault, later, hannounce, hraises, start_fails _ hannounce hone,
      start_fails _ hsame hraises.one_annotated_fails⟩

end Turns

section Runs

variable (walker : Walker σ) (tree : Value) (world : World σ)

/-- With annotation a walk is at the same stage after every turn. -/
theorem stageAt_annotated (turns : Nat) :
    (walker.annotated true).stageAt tree world turns =
      (walker.annotated false).stageAt tree world turns := by
  have hafter : ∀ turns (stage : Stage σ), (walker.annotated true).after turns stage =
      (walker.annotated false).after turns stage := by
    intro turns
    induction turns with
    | zero => exact fun _ => rfl
    | succ turns ih =>
      intro stage
      rcases walker.step_annotated stage with hsame | ⟨_, _, _, _, _, hbare, hnoted⟩
      · simp only [after, hsame, ih]
      · simp only [after, hbare, hnoted]
  rcases walker.start_annotated tree world with hsame | ⟨_, _, _, _, _, hbare, hnoted⟩
  · simp only [stageAt, hsame, hafter]
  · simp only [stageAt, hbare, hnoted]

variable {walker tree world}

theorem Consults.annotated {place : Place} {lineage : List Value} {before : World σ}
    (hconsults : (walker.annotated false).Consults tree world place lineage before) :
    (walker.annotated true).Consults tree world place lineage before := by
  cases hconsults with
  | root hannounce => exact .root hannounce
  | turn hstage hmeeting =>
    exact .turn ((walker.stageAt_annotated tree world _).trans hstage) hmeeting

variable (walker tree world)

/-- A walk comes to the same with annotation, or the check or the visitor fails
    at a node and only the failure is another. -/
theorem walk_annotated (fuel : Nat) :
    (walker.annotated true).walk fuel tree world = (walker.annotated false).walk fuel tree world ∨
      ∃ place lineage before fault later,
        (walker.annotated false).Consults tree world place lineage before ∧
        walker.Raises place lineage before fault later ∧
        (walker.annotated false).walk fuel tree world = some (.error fault later) ∧
        (walker.annotated true).walk fuel tree world =
          some (.error (located later.store place.node lineage fault) later) := by
  -- The induction is on the fuel, from a stage that the walk gets to.
  have hrun : ∀ fuel turns stage, (walker.annotated false).stageAt tree world turns = some stage →
      (walker.annotated true).run fuel (.more stage.descent) stage.world =
          (walker.annotated false).run fuel (.more stage.descent) stage.world ∨
        ∃ place lineage before fault later,
          (walker.annotated false).Consults tree world place lineage before ∧
          walker.Raises place lineage before fault later ∧
          (walker.annotated false).run fuel (.more stage.descent) stage.world =
            some (.error fault later) ∧
          (walker.annotated true).run fuel (.more stage.descent) stage.world =
            some (.error (located later.store place.node lineage fault) later) := by
    intro fuel
    induction fuel with
    | zero => exact fun _ _ _ => Or.inl rfl
    | succ fuel ih =>
      intro turns stage hstage
      rcases walker.step_annotated stage with hsame | ⟨place, fault, later, hmeeting, hraises,
        hbare, hnoted⟩
      · rcases hstep : (walker.annotated false).step stage.descent stage.world with
          ⟨step, later⟩ | ⟨fault, later⟩
        · simp only [run, hsame, hstep]
          cases step with
          | done ending => left; cases fuel <;> rfl
          | more next => exact ih _ _ (stageAt_succ_of_step hstage hstep)
        · simp only [run, hsame, hstep]
          exact Or.inl trivial
      · refine Or.inr ⟨place, _, _, fault, later, .turn hstage hmeeting, hraises, ?_, ?_⟩
        · simp only [run, hbare]
        · simp only [run, hnoted]
  rcases walker.start_annotated tree world with hsame | ⟨opened, fault, later, hannounce, hraises,
    hbare, hnoted⟩
  · rcases hstart : (walker.annotated false).start tree world with ⟨step, later⟩ | ⟨fault, later⟩
    · simp only [walk, hsame, hstart]
      cases step with
      | done ending => left; cases fuel <;> rfl
      | more descent =>
        refine hrun fuel 0 ⟨descent, later⟩ ?_
        simp only [stageAt, hstart]
        rfl
    · simp only [walk, hsame, hstart]
      exact Or.inl trivial
  · refine Or.inr ⟨_, _, _, fault, later, .root hannounce, hraises, ?_, ?_⟩
    · simp only [walk, hbare]
    · simp only [walk, hnoted]

variable {walker tree world}

theorem walk_annotated_of_not_error {fuel : Nat}
    (hgoes : ∀ fault final, (walker.annotated false).walk fuel tree world ≠
      some (.error fault final)) :
    (walker.annotated true).walk fuel tree world =
      (walker.annotated false).walk fuel tree world := by
  rcases walker.walk_annotated tree world fuel with hsame | ⟨_, _, _, _, _, _, _, hbare, _⟩
  · exact hsame
  · exact (hgoes _ _ hbare).elim

/-- What annotation makes of a failure of the check or the visitor at a node. -/
theorem located_of_consults {place : Place} {lineage : List Value} {before final : World σ}
    {fault other : Fault} {fuel : Nat}
    (hconsults : (walker.annotated false).Consults tree world place lineage before)
    (hraises : walker.Raises place lineage before fault final)
    (hwalk : (walker.annotated true).walk fuel tree world = some (.error other final)) :
    other = located final.store place.node lineage fault := by
  obtain ⟨enough, hfails⟩ := hconsults.annotated.walk_fails hraises.one_annotated_fails
  cases walk_unique (hfails 0) hwalk
  rfl

end Runs

end Walker

section Visits

variable (host : Host σ) (manner : Manner) (arguments : Arguments) (tree : Value) (world : World σ)

/-- The test or the visitor of a visit, or the reading of its answer, fails at
    the node at a place with these ancestors, and leaves the world so. -/
def RaisedAt (place : Place) (lineage : List Value) (fault : Fault) (final : World σ) : Prop :=
  ∃ request check converted before,
    arguments.resolve world.store = .ok request ∧
    Check.convert request.test world = .ok check converted ∧
    (request.walker host manner false check).Consults tree converted place lineage before ∧
    (request.walker host manner false check).Raises place lineage before fault final

end Visits

/-- Fails at the leaf of a chain. -/
def leafShy : Host Unit := fun _ call state =>
  match call with
  | .inLineage node _ => if node = .cell ⟨4⟩ then .error Walker.boom state else .ok .null state
  | .atPlace _ => .ok .null state

/-- A node with a number for children. -/
def countless : Store :=
  ⟨#[.mapping [("type", .text "root"), ("children", .int 5)]]⟩

end Lineage
