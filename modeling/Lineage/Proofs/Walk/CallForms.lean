import Lineage.Proofs.Walk.Turn
import Lineage.Visit

namespace Lineage

/-- How a visitor is called for a node. -/
def Manner.call (manner : Manner) (place : Place) (lineage : List Value) : Call :=
  match manner with
  | .lineage => .inLineage place.node lineage
  | .place => .atPlace place

/-- The calls that the visitors of a manner got by a journal, the newest
    first. -/
def callsOf (manner : Manner) (journal : List Entry) : List Call :=
  (visitsOf journal).map fun (place, lineage) => manner.call place lineage

variable {σ : Type} (host : Host σ) (manner : Manner) (annotate : Bool) (tree : Value)
  (world : World σ)

/-- What a visit shows to its caller at some time: the calls of the visitor so
    far and, once it is over, how it ended. -/
inductive Shows (arguments : Arguments) : List Call → Option (Except Fault Ending) → Prop where
  | underWay {request : Request} {check : Check} {converted : World σ} {turns : Nat}
      {stage : Walker.Stage σ} (hresolve : arguments.resolve world.store = .ok request)
      (hconvert : Check.convert request.test world = .ok check converted)
      (hstage : (request.walker host manner annotate check).stageAt tree converted turns =
        some stage) :
      Shows arguments (callsOf manner stage.world.journal) none
  | ended {fuel : Nat} {ending : Ending} {final : World σ}
      (hvisit : visit host manner arguments annotate fuel tree world = some (.ok ending final)) :
      Shows arguments (callsOf manner final.journal) (some (.ok ending))
  | failed {fuel : Nat} {fault : Fault} {final : World σ}
      (hvisit : visit host manner arguments annotate fuel tree world = some (.error fault final)) :
      Shows arguments (callsOf manner final.journal) (some (.error fault))

/-- Two ways to ask for a visit are alike if neither shows what the other does
    not. This also tells visits without end apart. -/
def Alike (arguments other : Arguments) : Prop :=
  ∀ calls ending, Shows host manner annotate tree world arguments calls ending ↔
    Shows host manner annotate tree world other calls ending

section Resolution

variable {host manner annotate tree world} {arguments other : Arguments}

/-- A visit depends on its arguments only by what they are resolved to. -/
theorem visit_congr (hresolve : arguments.resolve world.store = other.resolve world.store)
    (fuel : Nat) :
    visit host manner arguments annotate fuel tree world =
      visit host manner other annotate fuel tree world := by
  simp only [visit, hresolve]

theorem Shows.congr (hresolve : arguments.resolve world.store = other.resolve world.store)
    {calls : List Call} {ending : Option (Except Fault Ending)}
    (hshows : Shows host manner annotate tree world arguments calls ending) :
    Shows host manner annotate tree world other calls ending := by
  have hvisits : ∀ fuel, visit host manner arguments annotate fuel tree world =
      visit host manner other annotate fuel tree world := visit_congr hresolve
  cases hshows with
  | underWay hrequest hconvert hstage =>
    exact .underWay (hresolve.symm.trans hrequest) hconvert hstage
  | ended hvisit => exact .ended ((hvisits _).symm.trans hvisit)
  | failed hvisit => exact .failed ((hvisits _).symm.trans hvisit)

/-- Arguments that are resolved to the same are alike. -/
theorem alike_of_resolve_eq
    (hresolve : arguments.resolve world.store = other.resolve world.store) :
    Alike host manner annotate tree world arguments other :=
  fun _ _ => ⟨Shows.congr hresolve, Shows.congr hresolve.symm⟩

theorem Alike.symm (halike : Alike host manner annotate tree world arguments other) :
    Alike host manner annotate tree world other arguments :=
  fun calls ending => (halike calls ending).symm

theorem Alike.trans {third : Arguments}
    (hfirst : Alike host manner annotate tree world arguments other)
    (hsecond : Alike host manner annotate tree world other third) :
    Alike host manner annotate tree world arguments third :=
  fun calls ending => (hfirst calls ending).trans (hsecond calls ending)

/-- A visit that is over came to one thing, whatever the fuel. -/
theorem visit_unique {fuel more : Nat} {outcome rival : Walker.Outcome σ}
    (hvisit : visit host manner arguments annotate fuel tree world = some outcome)
    (hrival : visit host manner arguments annotate more tree world = some rival) :
    outcome = rival := by
  rcases hresolve : arguments.resolve world.store with fault | request
  · simp only [visit, hresolve] at hvisit hrival
    rw [hvisit] at hrival
    exact Option.some.inj hrival
  · rcases hconvert : Check.convert request.test world with ⟨check, later⟩ | ⟨fault, later⟩
    · simp only [visit, hresolve, hconvert] at hvisit hrival
      exact Walker.walk_unique hvisit hrival
    · simp only [visit, hresolve, hconvert] at hvisit hrival
      rw [hvisit] at hrival
      exact Option.some.inj hrival

end Resolution

/-- The two short forms, in which the test is left out. With the direction in
    the visitor's place a visit is that of the full form, turn by turn. With
    the direction in its own place it is dropped: the visit goes forward, which
    is like the full form exactly if the direction counts as false or forward
    and backward are alike. -/
theorem short_forms_resolve_direction {visitor reverse : Value}
    (hvisitor : world.store.isCallable visitor = true)
    (hreverse : world.store.isCallable reverse = false) :
    ((∀ fuel, visit host manner ⟨visitor, reverse, .null⟩ annotate fuel tree world =
        visit host manner ⟨.null, visitor, reverse⟩ annotate fuel tree world) ∧
      Alike host manner annotate tree world ⟨visitor, reverse, .null⟩ ⟨.null, visitor, reverse⟩) ∧
    ((∀ fuel, visit host manner ⟨visitor, .null, reverse⟩ annotate fuel tree world =
        visit host manner ⟨.null, visitor, .bool false⟩ annotate fuel tree world) ∧
      Alike host manner annotate tree world ⟨visitor, .null, reverse⟩
        ⟨.null, visitor, .bool false⟩) ∧
    (Alike host manner annotate tree world ⟨visitor, .null, reverse⟩ ⟨.null, visitor, reverse⟩ ↔
      world.store.isTrue reverse = false ∨
        Alike host manner annotate tree world ⟨.null, visitor, .bool false⟩
          ⟨.null, visitor, .bool true⟩) := by
  have hfull := Arguments.resolve_of_isCallable hvisitor .null reverse
  have hforward := Arguments.resolve_of_isCallable hvisitor .null (.bool false)
  have hbackward := Arguments.resolve_of_isCallable hvisitor .null (.bool true)
  have hplaced := (Arguments.resolve_of_not_isCallable hvisitor hreverse .null).trans hfull.symm
  have hdropped : Arguments.resolve world.store ⟨visitor, .null, reverse⟩ =
      Arguments.resolve world.store ⟨.null, visitor, .bool false⟩ :=
    (Arguments.resolve_of_not_isCallable hvisitor rfl reverse).trans hforward.symm
  have hkeyword : Alike host manner annotate tree world ⟨visitor, .null, reverse⟩
      ⟨.null, visitor, .bool false⟩ := alike_of_resolve_eq hdropped
  refine ⟨⟨visit_congr hplaced, alike_of_resolve_eq hplaced⟩,
    ⟨visit_congr hdropped, hkeyword⟩, ?_⟩
  cases htrue : world.store.isTrue reverse with
  | false =>
    have hsame : Arguments.resolve world.store ⟨.null, visitor, .bool false⟩ =
        Arguments.resolve world.store ⟨.null, visitor, reverse⟩ := by
      rw [hfull, hforward, htrue]
      rfl
    exact ⟨fun _ => Or.inl rfl, fun _ => hkeyword.trans (alike_of_resolve_eq hsame)⟩
  | true =>
    have hsame : Arguments.resolve world.store ⟨.null, visitor, reverse⟩ =
        Arguments.resolve world.store ⟨.null, visitor, .bool true⟩ := by
      rw [hfull, hbackward, htrue]
      rfl
    have hback : Alike host manner annotate tree world ⟨.null, visitor, reverse⟩
        ⟨.null, visitor, .bool true⟩ := alike_of_resolve_eq hsame
    constructor
    · intro halike
      exact Or.inr ((hkeyword.symm.trans halike).trans hback)
    · rintro (hfalse | halike)
      · cases hfalse
      · exact (hkeyword.trans halike).trans hback.symm

/-- A root with two leaves. -/
def fork : Store :=
  ⟨#[.mapping [("children", .cell ⟨1⟩)], .list [.cell ⟨2⟩, .cell ⟨3⟩], .mapping [], .mapping []]⟩

/-- Functions that do nothing. -/
def silent : Host Unit := fun _ _ state => .ok .null state

/-- A direction that counts as false is none the worse for being dropped. -/
theorem fork_short_form_forward :
    Alike silent .lineage false (.cell ⟨0⟩) ⟨fork, [], ()⟩ ⟨.function 0, .null, .int 0⟩
      ⟨.null, .function 0, .int 0⟩ :=
  (short_forms_resolve_direction silent .lineage false (.cell ⟨0⟩) ⟨fork, [], ()⟩ rfl
    rfl).2.2.mpr (Or.inl rfl)

/-- The two leaves are visited forward where the full form visits them
    backward. -/
theorem fork_direction_dropped :
    fork.isCallable (.function 0) = true ∧ fork.isCallable (.bool true) = false ∧
      ¬ Alike silent .lineage false (.cell ⟨0⟩) ⟨fork, [], ()⟩ ⟨.function 0, .null, .bool true⟩
        ⟨.null, .function 0, .bool true⟩ := by
  refine ⟨rfl, rfl, ?_⟩
  intro halike
  obtain ⟨forward, hforward, hfirst⟩ : ∃ final,
      visit silent .lineage ⟨.function 0, .null, .bool true⟩ false 4 (.cell ⟨0⟩)
        ⟨fork, [], ()⟩ = some (.ok .finished final) ∧
      callsOf .lineage final.journal =
        [.inLineage (.cell ⟨3⟩) [.cell ⟨0⟩], .inLineage (.cell ⟨2⟩) [.cell ⟨0⟩],
          .inLineage (.cell ⟨0⟩) []] := ⟨_, rfl, rfl⟩
  obtain ⟨backward, hbackward, hlast⟩ : ∃ final,
      visit silent .lineage ⟨.null, .function 0, .bool true⟩ false 4 (.cell ⟨0⟩)
        ⟨fork, [], ()⟩ = some (.ok .finished final) ∧
      callsOf .lineage final.journal =
        [.inLineage (.cell ⟨2⟩) [.cell ⟨0⟩], .inLineage (.cell ⟨3⟩) [.cell ⟨0⟩],
          .inLineage (.cell ⟨0⟩) []] := ⟨_, rfl, rfl⟩
  -- The forward visit would have to end with the calls of the backward one.
  have hshows := (halike _ _).mpr (.ended hbackward)
  rw [hlast] at hshows
  generalize hcalls : [_, _, _] = calls at hshows
  cases hshows with
  | ended hvisit =>
    cases visit_unique hvisit hforward
    rw [hfirst] at hcalls
    simp at hcalls

end Lineage
