import Lineage.Check.Convert
import Lineage.Node
import Lineage.Store.Equal

namespace Lineage.Check

/-- Whether a node has every entry of a pattern, decided from the left: the call
    of a `PropertyPattern`. -/
def hasEntries (store : Store) (node : Value) : Entries → Except Fault Bool
  | [] => pure true
  | (key, expected) :: rest => do
    match ← store.valueAt? node key with
    | none => pure false
    | some actual =>
      if ← store.agrees actual expected then hasEntries store node rest else pure false

/-- Whether a node has every property of a pattern. -/
def hasAll (store : Store) (node : Value) (fields : Fields) : Except Fault Bool :=
  hasEntries store node fields.entries

theorem hasAll_cons (store : Store) (node : Value) (key : String) (expected : Value)
    (rest : Fields) :
    hasAll store node ((key, expected) :: rest) =
      (match store.property? node key with
      | none => pure false
      | some actual => do
        if ← store.agrees actual expected then hasAll store node rest else pure false) := rfl

mutual

/-- Puts a check to the node at a place: the calls of the classes below `Check`,
    one to a case. -/
def test {σ : Type} (host : Host σ) (place : Place) : Check → Act σ Bool
  | .anything => pure true
  | .nothing => pure false
  | .typeName name => do
    let store ← Act.store
    Act.ofExcept (store.equal (store.typeOf place.node) (.scalar name))
  | .properties fields => do
    let store ← Act.store
    Act.ofExcept (hasAll store place.node fields)
  | .pattern entries => do
    let store ← Act.store
    Act.ofExcept (hasEntries store place.node entries)
  | .predicate function => do
    let answer ← Act.call host function (.atPlace place)
    let store ← Act.store
    pure (store.isTrue answer)
  | .anyOf checks => testAny host place checks
  | .abstract => Act.ofExcept (.error (.of .abstractCheck))

/-- Whether one of the checks is passed, tried from left to right. -/
def testAny {σ : Type} (host : Host σ) (place : Place) : List Check → Act σ Bool
  | [] => pure false
  | check :: rest => do
    if ← test host place check then pure true else testAny host place rest

end

/-- Whether the node at a place passes a test: `is_match`. -/
def isMatch {σ : Type} (host : Host σ) (place : Place) (test : Value) : Act σ Bool := do
  let check ← convert test
  check.test host place

end Lineage.Check
