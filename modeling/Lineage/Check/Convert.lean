import Lineage.Store.Shown
import Lineage.World

namespace Lineage.Check

/-- What a value means as a test. Null is passed by every node, a text by the
    nodes of that type, a mapping by the nodes with these properties, a list
    or tuple by the nodes that pass one of its members; a function decides for
    itself. -/
inductive Reading where
  | plain (check : Check)
  | members (tests : List Value)
  | unsupported

/-- Reads a value as a test. A mapping is copied, the values in it are not. -/
def read (store : Store) : Value → Reading
  | .null => .plain .anything
  | .text s => .plain (.typeName (.text s))
  | .action a => .plain (.typeName (.action a))
  | .scalar _ => .unsupported
  | .function f => .plain (.predicate f)
  | .cell ref =>
    match store.get? ref with
    | some (.check check) => .plain check
    | some (.mapping fields) => .plain (.properties fields)
    | some (.table entries) => .plain (.pattern entries)
    | some (.list tests) | some (.tuple tests) => .members tests
    | _ => .unsupported

/-- Converts the tests of a list from left to right. -/
def convertAll {σ : Type} (convert : Value → Act σ Check) : List Value → Act σ (List Check)
  | [] => pure []
  | test :: rest => do
    let check ← convert test
    let checks ← convertAll convert rest
    pure (check :: checks)

/-- Converts a test nested to a depth of at most `fuel`: the recursion of the
    program's `convert`. A value that is no
    test is reported and becomes a check that no node passes, but one that
    cannot be written fails. -/
def convertAt {σ : Type} : Nat → Value → Act σ Check
  | 0, _ => Act.ofExcept (.error (.of (.tooDeep .converting)))
  | fuel + 1, test => do
    let store ← Act.store
    match read store test with
    | .plain check => pure check
    | .members tests => return .anyOf (← convertAll (convertAt fuel) tests)
    | .unsupported =>
      let shown ← Act.ofExcept (store.write test)
      Act.say .debug ("Unsupported test " ++ shown ++ "; it will match nothing")
      pure .nothing

/-- Converts a test: `convert`. The depth allowed is that of a value without
    cycles. -/
def convert {σ : Type} (test : Value) : Act σ Check := do
  let store ← Act.store
  convertAt (store.size + 1) test

end Lineage.Check
