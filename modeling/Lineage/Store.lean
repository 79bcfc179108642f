import Lineage.Fault

namespace Lineage

/-- The address of a compound value. Two values with one address are the same
    object: what is done to one is done to the other. -/
structure Ref where
  address : Nat
  deriving DecidableEq, Repr

/-- A value: a scalar, a compound value by its address, or a function of the
    surrounding program by its number. -/
inductive Value where
  | scalar (s : Scalar)
  | cell (ref : Ref)
  | function (id : Nat)
  deriving DecidableEq

namespace Value

instance : Inhabited Value := ⟨.scalar .null⟩

@[match_pattern] abbrev null : Value := .scalar .null
@[match_pattern] abbrev bool (b : Bool) : Value := .scalar (.bool b)
@[match_pattern] abbrev int (n : Int) : Value := .scalar (.int n)
@[match_pattern] abbrev float (x : Binary64) : Value := .scalar (.float x)
@[match_pattern] abbrev text (s : String) : Value := .scalar (.text s)
@[match_pattern] abbrev action (a : Action) : Value := .scalar (.action a)

/-- Two values that are one object. -/
def same : Value → Value → Bool
  | cell a, cell b => a = b
  | function a, function b => a = b
  | _, _ => false

end Value

/-- Named values in the order in which their names were first used. -/
abbrev Fields := List (String × Value)

/-- Values under keys of any sort without parts, in the order in which the keys
    were first used. Numbers that are equal are one key. -/
abbrev Entries := List (Scalar × Value)

/-- The value under a key. -/
def Entries.value? (entries : Entries) (key : Scalar) : Option Value :=
  (entries.find? fun entry => entry.1.equal key).map Prod.snd

/-- Fields as entries. -/
def Fields.entries (fields : Fields) : Entries :=
  fields.map fun (key, value) => (.text key, value)

/-- A test in the form in which it is put to nodes. A pattern asks for the
    entries of a mapping some of whose keys are no texts. -/
inductive Check where
  | anything
  | nothing
  | typeName (name : Scalar)
  | properties (fields : Fields)
  | pattern (entries : Entries)
  | predicate (function : Nat)
  | anyOf (checks : List Check)
  | abstract

/-- The kind of a check. -/
def Check.kind : Check → Kind
  | anything => .anything
  | nothing => .nothing
  | typeName _ => .typeName
  | properties _ | pattern _ => .properties
  | predicate _ => .predicate
  | anyOf _ => .anyOf
  | abstract => .abstractCheck

/-- What a visitor asks of the walk, the program's `VisitResult`: an action and, unless it is null, the
    index at which the siblings are taken up again. -/
structure Directive where
  action : Value := .action .proceed
  index : Value := .null
  deriving DecidableEq

/-- What stands at an address. A table is a mapping some of whose keys are no
    texts. Elements are nodes with attributes in place of keys; comparing an
    incomparable value fails. -/
inductive Cell where
  | list (items : List Value)
  | tuple (items : List Value)
  | mapping (fields : Fields)
  | table (entries : Entries)
  | element (fields : Fields)
  | directive (directive : Directive)
  | check (check : Check)
  | incomparable (category : Category)

/-- The kind of a cell. -/
def Cell.kind : Cell → Kind
  | list _ => .list
  | tuple _ => .tuple
  | mapping _ | table _ => .mapping
  | element _ => .element
  | directive _ => .directive
  | check c => c.kind
  | incomparable _ => .incomparable

/-- The compound values of a program by their addresses. -/
structure Store where
  cells : Array Cell

namespace Store

/-- The store without any compound value. -/
def empty : Store := ⟨#[]⟩

/-- How many compound values there are. -/
def size (store : Store) : Nat := store.cells.size

/-- What stands at an address. -/
def get? (store : Store) (ref : Ref) : Option Cell :=
  store.cells[ref.address]?

/-- Puts a cell at a new address. -/
def alloc (store : Store) (cell : Cell) : Value × Store :=
  (.cell ⟨store.cells.size⟩, ⟨store.cells.push cell⟩)

/-- Replaces what stands at an address. -/
def put (store : Store) (ref : Ref) (cell : Cell) : Store :=
  ⟨store.cells.setIfInBounds ref.address cell⟩

/-- The cell of a compound value. -/
def cell? (store : Store) : Value → Option Cell
  | .cell ref => store.get? ref
  | _ => none

/-- The kind of a value. -/
def kind (store : Store) : Value → Kind
  | .scalar s => s.kind
  | .cell ref => ((store.get? ref).map Cell.kind).getD .null
  | .function _ => .function

/-- Whether a value counts as true: empty containers do not. -/
def isTrue (store : Store) : Value → Bool
  | .scalar s => s.isTrue
  | .function _ => true
  | .cell ref =>
    match store.get? ref with
    | some (.list items) | some (.tuple items) => !items.isEmpty
    | some (.mapping fields) => !fields.isEmpty
    | some (.table entries) => !entries.isEmpty
    | _ => true

/-- Whether a value can be called: functions and checks can. -/
def isCallable (store : Store) : Value → Bool
  | .scalar _ => false
  | .function _ => true
  | .cell ref =>
    match store.get? ref with
    | some (.check _) => true
    | _ => false

/-- A new cell stands at its address. -/
@[simp] theorem get?_alloc_self (store : Store) (cell : Cell) :
    (store.alloc cell).2.get? ⟨store.size⟩ = some cell := by
  simp [alloc, get?, size]

/-- A new cell changes no other one. -/
theorem get?_alloc_of_lt (store : Store) (cell : Cell) (ref : Ref)
    (hold : ref.address < store.size) : (store.alloc cell).2.get? ref = store.get? ref := by
  simp only [size] at hold
  simp [alloc, get?, Array.getElem?_push, Nat.ne_of_lt hold]

/-- A cell that was put stands at its address. -/
theorem get?_put_self (store : Store) (ref : Ref) (cell : Cell)
    (hold : ref.address < store.size) : (store.put ref cell).get? ref = some cell := by
  simp only [size] at hold
  simp [put, get?, hold]

/-- Putting a cell changes no other one. -/
theorem get?_put_of_ne (store : Store) (ref other : Ref) (cell : Cell) (hne : ref ≠ other) :
    (store.put ref cell).get? other = store.get? other := by
  have haddress : ref.address ≠ other.address := fun h => hne (by cases ref; cases other; simp_all)
  simp [put, get?, haddress]

end Store

end Lineage
