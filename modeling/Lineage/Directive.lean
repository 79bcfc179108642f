import Lineage.Store.Equal
import Lineage.Store.Shown
import Lineage.World

namespace Lineage.Directive

/-- The action of an answer's first part: an action is itself, false ends the
    walk and anything else lets it go on. The program's `_to_action`. -/
def actionOf : Value → Action
  | .action a => a
  | .bool false => .exit
  | _ => .proceed

/-- The index of an answer's second part; only integers are indices, as
    `_is_index` has it. -/
def indexOf : Value → Value
  | .int n => .int n
  | _ => .null

/-- The directive of an answer in two parts, each of which may be missing. -/
def ofParts : List Value → Directive
  | [] => {}
  | [first] => { action := .action (actionOf first) }
  | first :: second :: _ => { action := .action (actionOf first), index := indexOf second }

/-- The directive that a value stands for, if it is one that is understood: the
    branches of `to_result` before its last. -/
def read (store : Store) : Value → Option Directive
  | .null => some {}
  | .action a => some { action := .action a }
  | .bool b => some { action := .action (actionOf (.bool b)) }
  | .int n => some { index := .int n }
  | .scalar _ => none
  | .function _ => none
  | .cell ref =>
    match store.get? ref with
    | some (.directive directive) => some directive
    | some (.list parts) | some (.tuple parts) => some (ofParts parts)
    | _ => none

/-- What a visitor's answer asks of the walk: `to_result`. An answer that is not understood
    is reported and lets the walk go on, but one that cannot be written fails. -/
def ofAnswer {σ : Type} (answer : Value) : Act σ Directive := do
  let store ← Act.store
  match read store answer with
  | some directive => pure directive
  | none =>
    let shown ← Act.ofExcept (store.write answer)
    Act.say .debug ("Ignoring unrecognized visitor result " ++ shown)
    pure {}

/-- The action that a value names: an action itself, or its word. A value that
    cannot be compared with the words is refused as such. -/
def actionNamed (store : Store) (value : Value) : Except Fault Action :=
  let named :=
    match value with
    | .scalar s => s.text?.bind Action.ofText?
    | _ => none
  match named, store.refusal? value with
  | some action, _ => pure action
  | none, some fault => throw fault
  | none, none => do
    let shown ← store.write value
    throw (.of (.unknownAction shown))

/-- Leaves out what is below the node: `VisitResult.skip`. -/
def skip : Directive := { action := .action .skip }

/-- Ends the walk: `VisitResult.exit`. -/
def exit : Directive := { action := .action .exit }

/-- Takes up the siblings at an index: `VisitResult.resume`. -/
def resume (index : Value) (action : Value := .action .proceed) : Directive := { action, index }

end Lineage.Directive
