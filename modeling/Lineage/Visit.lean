import Lineage.Check.Test
import Lineage.Walk

namespace Lineage

/-- What a visitor is told about a node: its ancestors, or its index and its
    parent. -/
inductive Manner where
  | lineage
  | place
  deriving DecidableEq, Repr

/-- The arguments of a visit as they were given. -/
structure Arguments where
  test : Value := .null
  visitor : Value := .null
  reverse : Value := .null

/-- The arguments of a visit with their parts settled. -/
structure Request where
  test : Value
  visitor : Value
  reverse : Bool

/-- Settles the arguments: `_resolve_arguments`. Without a callable visitor, a callable test is the
    visitor, there is no test, and what stood in the visitor's place gives the
    direction. -/
def Arguments.resolve (store : Store) (arguments : Arguments) : Except Fault Request :=
  let shifted : Arguments :=
    if store.isCallable arguments.test && !store.isCallable arguments.visitor then
      { visitor := arguments.test, reverse := arguments.visitor }
    else arguments
  if store.isCallable shifted.visitor then
    pure ⟨shifted.test, shifted.visitor, store.isTrue shifted.reverse⟩
  else
    throw (.of (.complaint (.about .argument
      ("Expected a callable visitor, got " ++ (store.kind shifted.visitor).name)
      (some "visitor") .null)))

section Resolve

variable {store : Store} {visitor : Value} (hvisitor : store.isCallable visitor = true)

include hvisitor

/-- Arguments with a callable visitor are taken as they are. -/
theorem Arguments.resolve_of_isCallable (test reverse : Value) :
    Arguments.resolve store ⟨test, visitor, reverse⟩ =
      .ok ⟨test, visitor, store.isTrue reverse⟩ := by
  simp [Arguments.resolve, hvisitor, pure, Except.pure]

/-- A visitor in the place of the test moves up. What stands in its own place
    gives the direction, and what stands in the place of the direction is
    dropped. -/
theorem Arguments.resolve_of_not_isCallable {reverse : Value}
    (hreverse : store.isCallable reverse = false) (dropped : Value) :
    Arguments.resolve store ⟨visitor, reverse, dropped⟩ =
      .ok ⟨.null, visitor, store.isTrue reverse⟩ := by
  simp [Arguments.resolve, hvisitor, hreverse, pure, Except.pure]

end Resolve

variable {σ : Type}

/-- Calls a visitor: `call` of `visit_parents` or of `visit`. A check that serves as visitor answers with its verdict;
    it takes the ancestors, root first, for the index. -/
def callVisitor (host : Host σ) (manner : Manner) (visitor : Value) (place : Place)
    (lineage : List Value) : Act σ Value :=
  match visitor with
  | .function f =>
    match manner with
    | .lineage => Act.call host f (.inLineage place.node lineage)
    | .place => Act.call host f (.atPlace place)
  | _ => do
    let store ← Act.store
    match store.cell? visitor with
    | some (.check check) =>
      match manner with
      | .lineage =>
        let index ← Act.alloc (.list lineage.reverse)
        return .bool (← check.test host { node := place.node, index })
      | .place => return .bool (← check.test host place)
    | _ => pure .null

/-- The walk that a request asks for, once its test is converted. -/
def Request.walker (request : Request) (host : Host σ) (manner : Manner) (annotate : Bool)
    (check : Check) : Walker σ where
  check place := check.test host place
  visit place lineage := callVisitor host manner request.visitor place lineage
  reverse := request.reverse
  annotate := annotate

/-- Visits the nodes of a tree that pass a test: `visit_parents` and `visit`, by
    the manner. -/
def visit (host : Host σ) (manner : Manner) (arguments : Arguments) (annotate : Bool) (fuel : Nat)
    (tree : Value) (world : World σ) : Option (Walker.Outcome σ) :=
  match arguments.resolve world.store with
  | .error fault => some (.error fault world)
  | .ok request =>
    match Check.convert request.test world with
    | .error fault world => some (.error fault world)
    | .ok check world => (request.walker host manner annotate check).walk fuel tree world

end Lineage
