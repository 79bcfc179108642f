import Lineage.Scalar

namespace Lineage

/-- Plain data: scalars and what lists, tuples and mappings make of them. The
    fields of a mapping are in the order in which they were first written. -/
inductive Datum where
  | scalar (s : Scalar)
  | list (items : List Datum)
  | tuple (items : List Datum)
  | mapping (fields : List (String × Datum))

namespace Datum

instance : Inhabited Datum := ⟨.scalar .null⟩

@[match_pattern] abbrev null : Datum := .scalar .null
@[match_pattern] abbrev bool (b : Bool) : Datum := .scalar (.bool b)
@[match_pattern] abbrev int (n : Int) : Datum := .scalar (.int n)
@[match_pattern] abbrev float (x : Binary64) : Datum := .scalar (.float x)
@[match_pattern] abbrev text (s : String) : Datum := .scalar (.text s)

/-- The kind of a datum. -/
def kind : Datum → Kind
  | scalar s => s.kind
  | list _ => .list
  | tuple _ => .tuple
  | mapping _ => .mapping

/-- Empty containers count as false. -/
def isTrue : Datum → Bool
  | scalar s => s.isTrue
  | list items | tuple items => !items.isEmpty
  | mapping fields => !fields.isEmpty

/-- The shown parts between brackets; a tuple of one part keeps its comma. -/
def bracketed (opening closing : String) (parts : List String) : String :=
  opening ++ ", ".intercalate parts ++ closing

/-- The shown parts of a tuple. -/
def tupled : List String → String
  | [part] => "(" ++ part ++ ",)"
  | parts => bracketed "(" ")" parts

mutual

/-- A datum as messages show it. -/
def shown : Datum → String
  | scalar s => s.shown
  | list items => bracketed "[" "]" (shownItems items)
  | tuple items => tupled (shownItems items)
  | mapping fields => bracketed "\x7b" "\x7d" (shownFields fields)

/-- The items of a sequence, each as messages show it. -/
def shownItems : List Datum → List String
  | [] => []
  | item :: rest => item.shown :: shownItems rest

/-- The fields of a mapping, each as messages show it. -/
def shownFields : List (String × Datum) → List String
  | [] => []
  | (key, value) :: rest => (Text.quoted key ++ ": " ++ value.shown) :: shownFields rest

end

/-- A datum in running text: like `shown`, but a text is not quoted. -/
def display : Datum → String
  | scalar s => s.display
  | datum => datum.shown

end Datum

/-- The fields with the value under the key replaced, in place when the key
    is present and at the end when it is not. -/
def setField {α : Type} (key : String) (value : α) : List (String × α) → List (String × α)
  | [] => [(key, value)]
  | (k, v) :: rest => if k = key then (k, value) :: rest else (k, v) :: setField key value rest

/-- The fields without the key. -/
def eraseField {α : Type} (key : String) (fields : List (String × α)) : List (String × α) :=
  fields.filter fun field => field.1 ≠ key

end Lineage
