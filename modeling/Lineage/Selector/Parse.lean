import Lineage.Fault
import Lineage.Json.Reader
import Lineage.Selector.Scan

namespace Lineage.Selector

/-- A value as a selector writes it: between quotes, or without. -/
inductive Literal where
  | quoted (raw : String)
  | bare (raw : String)
  deriving DecidableEq, Repr

/-- One alternative of a selector: a type unless any type will do, and the
    properties asked for, in the order written. -/
structure Alternative where
  type : Option String
  predicates : List (String × Literal)
  deriving DecidableEq, Repr

/-- Why a text gives no test: a mistake in its form, or a quoted value that is
    no string of a document. -/
inductive Error where
  | mistake (mistake : Mistake)
  | badString (raw : String) (error : Json.Error)

/-- The wording of an error in a selector. -/
def Error.message (selector : String) : Error → String
  | mistake m => "Invalid selector: " ++ m.message selector
  | badString raw error => "Invalid string value " ++ raw ++ ": " ++ error.message

/-- The groups of symbols between the commas. -/
def splitCommas : List Token → List (List Token)
  | [] => [[]]
  | token :: rest =>
    if token.terminal = .comma then [] :: splitCommas rest
    else
      match splitCommas rest with
      | [] => [[token]]
      | group :: groups => (token :: group) :: groups

/-- The value that a symbol writes. -/
def Token.literal (token : Token) : Literal :=
  if token.terminal = .string then .quoted token.text else .bare token.text

/-- The predicates that a group of symbols holds, five symbols to each. -/
def predicatesOf : List Token → List (String × Literal)
  | _ :: key :: _ :: value :: _ :: rest => (key.text, value.literal) :: predicatesOf rest
  | _ => []

/-- The alternative that a group of symbols stands for. -/
def Alternative.ofTokens : List Token → Alternative
  | [] => ⟨none, []⟩
  | first :: rest =>
    match first.terminal with
    | .name => ⟨some first.text, predicatesOf rest⟩
    | .star => ⟨none, predicatesOf rest⟩
    | _ => ⟨none, predicatesOf (first :: rest)⟩

/-- The alternatives of a selector. -/
def alternatives (selector : String) : Except Mistake (List Alternative) := do
  let tokens ← scan selector
  pure ((splitCommas tokens).map Alternative.ofTokens)

/-- The value of a bareword, `_bareword_value`: a keyword, an integer, a number, or else the word
    itself. -/
def barewordValue (raw : String) : Scalar :=
  match raw with
  | "true" => .bool true
  | "false" => .bool false
  | "null" => .null
  | _ =>
    match Numeral.readInt? raw with
    | some n => .int n
    | none =>
      match Numeral.readFloat? raw with
      | some x => .float x
      | none => .text raw

/-- The value of a literal. Between quotes stands a string of a document. -/
def Literal.value : Literal → Except Error Datum
  | bare raw => pure (.scalar (barewordValue raw))
  | quoted raw =>
    match Json.parse raw with
    | .ok datum => pure datum
    | .error error => throw (.badString raw error)

/-- The values of the predicates, of which a later one replaces an earlier one
    on the same key. -/
def addPredicates : List (String × Literal) → List (String × Datum) →
    Except Error (List (String × Datum))
  | [], fields => pure fields
  | (key, literal) :: rest, fields => do
    let value ← literal.value
    addPredicates rest (setField key value fields)

/-- The test of an alternative, which `_ToTest.selector` makes: null if it asks for nothing, the type if it
    asks for that alone, and else a mapping. A predicate on the type replaces
    the type. -/
def Alternative.test (alternative : Alternative) : Except Error Datum := do
  let properties ← addPredicates alternative.predicates []
  match properties, alternative.type with
  | [], none => pure .null
  | [], some type => pure (.text type)
  | _, none => pure (.mapping properties)
  | _, some type =>
    pure (.mapping (properties.foldl (fun fields (key, value) => setField key value fields)
      [("type", .text type)]))

/-- The test of a list of alternatives; a single one stands for itself:
    `_ToTest.selector_list`. -/
def testOf (alternatives : List Alternative) : Except Error Datum := do
  match ← alternatives.mapM Alternative.test with
  | [test] => pure test
  | tests => pure (.list tests)

/-- Reads a selector as a test: `parse_test`. -/
def parse (selector : String) : Except Error Datum :=
  match alternatives selector with
  | .ok alternatives => testOf alternatives
  | .error mistake => throw (.mistake mistake)

/-- The failure that a refused selector brings about. -/
def Error.fault (selector : String) (error : Error) : Fault :=
  .of (.complaint (.about .selector (error.message selector) (some selector) .null))

end Lineage.Selector
