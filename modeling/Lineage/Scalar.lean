import Lineage.Action
import Lineage.Kind
import Lineage.Number.Numeral
import Lineage.Number.Shortest
import Lineage.Text.Quoted

namespace Lineage

/-- A value without parts. -/
inductive Scalar where
  | null
  | bool (b : Bool)
  | int (n : Int)
  | float (x : Binary64)
  | text (s : String)
  | action (a : Action)
  deriving DecidableEq

/-- What comparing two scalars looks at. Booleans count as the numbers zero
    and one, integers and floats as exact numbers, and an action as its word. -/
inductive Scalar.Content where
  | null
  | number (value : Dyadic)
  | infinite (negative : Bool)
  | nan
  | text (s : String)
  deriving DecidableEq

namespace Scalar

/-- The kind of a scalar. -/
def kind : Scalar → Kind
  | null => .null
  | bool _ => .bool
  | int _ => .int
  | float _ => .float
  | text _ => .text
  | action _ => .action

/-- What comparing a scalar looks at. Zero has one content for both its signs. -/
def content : Scalar → Content
  | null => .null
  | bool b => .number (if b then 1 else 0)
  | int n => .number (Dyadic.ofInt n)
  | float .nan => .nan
  | float (.infinite negative) => .infinite negative
  | float .negZero => .number 0
  | float (.finite value) => .number value
  | text s => .text s
  | action a => .text a.text

/-- Equality of scalars: equal contents, except that NaN equals nothing. -/
def equal (a b : Scalar) : Bool :=
  a.content ≠ .nan && a.content == b.content

/-- Whether one scalar is above another one, if they can be ordered: numbers by
    their size, of which NaN has none, and texts by their characters. -/
def above? (a b : Scalar) : Option Bool :=
  match a.content, b.content with
  | .number x, .number y => some (y < x)
  | .number _, .infinite negative => some negative
  | .infinite negative, .number _ => some !negative
  | .infinite negative, .infinite other => some (!negative && other)
  | .nan, .nan | .nan, .number _ | .nan, .infinite _ | .number _, .nan | .infinite _, .nan =>
    some false
  | .text s, .text t => some (t < s)
  | _, _ => none

/-- Null, false, zero and the empty text count as false, all else as true. -/
def isTrue : Scalar → Bool
  | null => false
  | bool b => b
  | int n => n ≠ 0
  | float x => x.isNonzero
  | text s => !s.isEmpty
  | action _ => true

/-- The characters of a text; an action has those of its word. -/
def text? : Scalar → Option String
  | text s => some s
  | action a => some a.text
  | _ => none

/-- A scalar inside a compound value: texts are quoted. -/
def shown : Scalar → String
  | null => "None"
  | bool b => if b then "True" else "False"
  | int n => toString n
  | float x => x.render
  | text s => Text.quoted s
  | action a => a.shown

/-- An integer of more digits than may be written. -/
def isLong : Scalar → Bool
  | int n => (Nat.toDigits 10 n.natAbs).length > Numeral.maxDigits
  | _ => false

/-- A scalar in running text. -/
def display : Scalar → String
  | text s => s
  | action a => a.label
  | s => s.shown

end Scalar

end Lineage
