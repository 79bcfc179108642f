import Lineage.Store

namespace Lineage

mutual

/-- A check as messages show it, given how the values in it are shown. -/
def Check.shown (part : Value → String) : Check → String
  | .anything => "Anything()"
  | .nothing => "Nothing()"
  | .typeName name => "TypeName(name=" ++ name.shown ++ ")"
  | .properties fields =>
    "PropertyPattern(properties=" ++
      Datum.bracketed "\x7b" "\x7d"
        (fields.map fun (key, value) => Text.quoted key ++ ": " ++ part value) ++ ")"
  | .pattern entries =>
    "PropertyPattern(properties=" ++
      Datum.bracketed "\x7b" "\x7d"
        (entries.map fun (key, value) => key.shown ++ ": " ++ part value) ++ ")"
  | .predicate _ => "Predicate(function=<function>)"
  | .anyOf checks => "AnyOf(checks=" ++ Datum.tupled (shownAll part checks) ++ ")"
  | .abstract => "<Check>"

/-- The checks of a list, each as messages show it. -/
def Check.shownAll (part : Value → String) : List Check → List String
  | [] => []
  | check :: rest => check.shown part :: shownAll part rest

/-- Why a check cannot be written, if it cannot, given why the values in it
    cannot. -/
def Check.unwritable? (part : Value → Option Fault) : Check → Option Fault
  | .typeName name => part (.scalar name)
  | .properties fields => fields.findSome? fun (_, value) => part value
  | .pattern entries => entries.findSome? fun (key, value) => (part (.scalar key)).or (part value)
  | .anyOf checks => anyUnwritable? part checks
  | .anything | .nothing | .predicate _ | .abstract => none

/-- Why the first check of a list that cannot be written cannot, if there is
    one. -/
def Check.anyUnwritable? (part : Value → Option Fault) : List Check → Option Fault
  | [] => none
  | check :: rest => (check.unwritable? part).or (anyUnwritable? part rest)

end

namespace Store

/-- A container inside itself. -/
def shownAgain : Option Cell → String
  | some (.list _) => "[...]"
  | some (.tuple _) => "(...)"
  | some (.mapping _) | some (.table _) => "\x7b...\x7d"
  | _ => "..."

/-- A value as messages show it, below the containers at `path`. Every level
    adds an address to the path, so the number of cells is fuel enough. -/
def shownAt (store : Store) : Nat → List Ref → Value → String
  | _, _, .scalar s => s.shown
  | _, _, .function _ => "<function>"
  | 0, _, .cell ref => shownAgain (store.get? ref)
  | fuel + 1, path, .cell ref =>
    if path.contains ref then shownAgain (store.get? ref)
    else
      let part := store.shownAt fuel (ref :: path)
      match store.get? ref with
      | some (.list items) => Datum.bracketed "[" "]" (items.map part)
      | some (.tuple items) => Datum.tupled (items.map part)
      | some (.mapping fields) =>
        Datum.bracketed "\x7b" "\x7d"
          (fields.map fun (key, value) => Text.quoted key ++ ": " ++ part value)
      | some (.table entries) =>
        Datum.bracketed "\x7b" "\x7d"
          (entries.map fun (key, value) => key.shown ++ ": " ++ part value)
      | some (.element _) => "<Element>"
      | some (.directive d) =>
        "VisitResult(action=" ++ part d.action ++ ", index=" ++ part d.index ++ ")"
      | some (.check c) => c.shown part
      | some (.incomparable _) => "<Strict>"
      | none => ""

/-- A value as messages show it. -/
def shown (store : Store) (value : Value) : String :=
  store.shownAt store.size [] value

/-- A value in running text: like `shown`, but a text is not quoted. -/
def display (store : Store) : Value → String
  | .scalar s => s.display
  | value => store.shown value

/-- Why a value cannot be written below the containers at `path`, if it cannot:
    the first integer with too many digits, or the first container that is too
    many levels down. The parts are gone through in the order of `shownAt`. -/
def unwritableAt? (store : Store) : Nat → List Ref → Value → Option Fault
  | _, _, .scalar s => if s.isLong then some (.of .unwritableInteger) else none
  | _, _, .function _ => none
  | 0, _, .cell _ => none
  | fuel + 1, path, .cell ref =>
    if maxLevels ≤ path.length then some (.of (.tooDeep .writing))
    else if path.contains ref then none
    else
      let part := store.unwritableAt? fuel (ref :: path)
      match store.get? ref with
      | some (.list items) | some (.tuple items) => items.findSome? part
      | some (.mapping fields) => fields.findSome? fun (_, value) => part value
      | some (.table entries) =>
        entries.findSome? fun (key, value) => (part (.scalar key)).or (part value)
      | some (.directive d) => (part d.action).or (part d.index)
      | some (.check c) => c.unwritable? part
      | _ => none

/-- Why a value cannot be written, if it cannot. -/
def unwritable? (store : Store) (value : Value) : Option Fault :=
  store.unwritableAt? store.size [] value

/-- Writes a value as messages show it. -/
def write (store : Store) (value : Value) : Except Fault String :=
  match store.unwritable? value with
  | some fault => throw fault
  | none => pure (store.shown value)

/-- Writes a value in running text. -/
def print (store : Store) (value : Value) : Except Fault String :=
  match store.unwritable? value with
  | some fault => throw fault
  | none => pure (store.display value)

end Store

end Lineage
