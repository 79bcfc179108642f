import Lineage.Proofs.Walk.CallForms
import Lineage.Proofs.Walk.Consultation

namespace Lineage

variable {σ : Type}

section Walkers

variable {host : Host σ} {behaviour : Value → Value → EStateM Fault (Store × σ) Value}
  {byPlace byLineage : Nat}
  (hplace : ∀ place, host byPlace (.atPlace place) = behaviour place.node place.parent)
  (hlineage : ∀ node lineage,
    host byLineage (.inLineage node lineage) = behaviour node (lineage.headD .null))

include hplace hlineage

/-- A visitor told of the place and one told of the ancestors do the same, if
    the nearest ancestor is the parent. -/
theorem callVisitor_eq {place : Place} {lineage : List Value}
    (hparent : lineage.headD .null = place.parent) :
    callVisitor host .place (.function byPlace) place lineage =
      callVisitor host .lineage (.function byLineage) place lineage := by
  funext world
  simp only [callVisitor, Act.call, hplace, hlineage, hparent]

/-- The two ways to call a visitor deal with the nodes of a walk alike, since
    there the nearest ancestor is the parent. -/
theorem one_eq_of_consults (test : Value) (reverse annotate : Bool) (check : Check) {tree : Value}
    {world before : World σ} {place : Place} {lineage : List Value}
    (hconsults : (Request.walker ⟨test, .function byLineage, reverse⟩ host .lineage annotate
      check).Consults tree world place lineage before) :
    (Request.walker ⟨test, .function byPlace, reverse⟩ host .place annotate check).one place
        lineage before =
      (Request.walker ⟨test, .function byLineage, reverse⟩ host .lineage annotate check).one place
        lineage before := by
  have hcall := callVisitor_eq hplace hlineage hconsults.headD_lineage
  exact congrFun (Walker.one_congr (by rfl) (by rfl) hcall) before

end Walkers

/-- A visitor that goes by the node and its parent, null at the root, makes the
    same visit whether it is told of the place or of the ancestors: for every
    tree, test, direction and annotation, and whatever it does to the tree,
    answers or raises, the two visits end with the same outcome in the same
    world, journal included, or neither ends, and on the way there they are at
    the same stage after every turn. -/
theorem visit_same_in_both_manners (host : Host σ)
    (behaviour : Value → Value → EStateM Fault (Store × σ) Value) (byPlace byLineage : Nat)
    (hplace : ∀ place, host byPlace (.atPlace place) = behaviour place.node place.parent)
    (hlineage : ∀ node lineage,
      host byLineage (.inLineage node lineage) = behaviour node (lineage.headD .null))
    (test reverse : Value) (annotate : Bool) (tree : Value) (world : World σ) :
    (∀ fuel,
      visit host .place ⟨test, .function byPlace, reverse⟩ annotate fuel tree world =
        visit host .lineage ⟨test, .function byLineage, reverse⟩ annotate fuel tree world) ∧
    ∀ check converted, Check.convert test world = .ok check converted → ∀ turns,
      (Request.walker ⟨test, .function byPlace, world.store.isTrue reverse⟩ host .place annotate
          check).stageAt tree converted turns =
        (Request.walker ⟨test, .function byLineage, world.store.isTrue reverse⟩ host .lineage
          annotate check).stageAt tree converted turns := by
  have hone : ∀ check converted place lineage before,
      (Request.walker ⟨test, .function byLineage, world.store.isTrue reverse⟩ host .lineage annotate
        check).Consults tree converted place lineage before → _ = _ :=
    fun check _ _ _ _ => one_eq_of_consults hplace hlineage test _ annotate check
  refine ⟨?_, fun check converted _ => Walker.stageAt_congr (by rfl) (hone check converted)⟩
  intro fuel
  have hfirst : Arguments.resolve world.store ⟨test, .function byPlace, reverse⟩ = _ :=
    Arguments.resolve_of_isCallable rfl test reverse
  have hsecond : Arguments.resolve world.store ⟨test, .function byLineage, reverse⟩ = _ :=
    Arguments.resolve_of_isCallable rfl test reverse
  simp only [visit, hfirst, hsecond]
  rcases Check.convert test world with ⟨check, converted⟩ | ⟨fault, later⟩
  · exact Walker.walk_congr (by rfl) (hone check converted) fuel
  · rfl

/-- Counts its calls, removes the leaves of a fork when it meets the first of
    them and fails if it meets anything else below the root. -/
def clearing (node parent : Value) : EStateM Fault (Store × Nat) Value := fun (store, calls) =>
  if parent = .null then .ok .null (store, calls + 1)
  else if node = .cell ⟨2⟩ then .ok (.action .skip) (store.put ⟨1⟩ (.list []), calls + 1)
  else .error (.of (.raised .state "left over")) (store, calls + 1)

/-- That behaviour for both ways to be called. -/
def clearer : Host Nat
  | _, .atPlace place => clearing place.node place.parent
  | _, .inLineage node lineage => clearing node (lineage.headD .null)

/-- Forward the fork is cleared in two calls, backward the second call fails;
    either visit is the same in both manners. -/
theorem clearer_same_in_both_manners :
    (∀ reverse fuel,
      visit clearer .place ⟨.null, .function 0, reverse⟩ true fuel (.cell ⟨0⟩) ⟨fork, [], 0⟩ =
        visit clearer .lineage ⟨.null, .function 1, reverse⟩ true fuel (.cell ⟨0⟩)
          ⟨fork, [], 0⟩) ∧
    (∃ final, visit clearer .lineage ⟨.null, .function 1, .bool false⟩ true 3 (.cell ⟨0⟩)
      ⟨fork, [], 0⟩ = some (.ok .finished final) ∧ final.user = 2) ∧
    ∃ fault final, visit clearer .lineage ⟨.null, .function 1, .bool true⟩ true 1 (.cell ⟨0⟩)
      ⟨fork, [], 0⟩ = some (.error fault final) ∧ final.user = 2 := by
  refine ⟨?_, ⟨_, rfl, rfl⟩, ⟨_, _, rfl, rfl⟩⟩
  intro reverse
  exact (visit_same_in_both_manners clearer clearing 0 1 (fun _ => rfl) (fun _ _ => rfl) .null
    reverse true (.cell ⟨0⟩) ⟨fork, [], 0⟩).1

end Lineage
