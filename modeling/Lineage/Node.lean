import Lineage.Store.Shown

namespace Lineage

/-- What every element has beside its own fields, by the class that elements are
    of: no documentation and no weak references to it. The class brings along more,
    all of it under names that begin with two underscores: the class itself, its
    module, its methods, the fields as a mapping. That is left out here. -/
def Cell.inherited : Fields :=
  [("__doc__", .null), ("__weakref__", .null)]

/-- The properties that a cell shows as a node. -/
def Cell.property? (key : String) : Cell → Option Value
  | .mapping fields => fields.lookup key
  | .table entries => entries.value? (.text key)
  | .element fields => (fields.lookup key).or (inherited.lookup key)
  | .directive d => [("action", d.action), ("index", d.index)].lookup key
  | .check (.typeName name) => [("name", Value.scalar name)].lookup key
  | _ => none

/-- What scalars show as nodes. Numbers have their parts, as a fraction and as a
    complex number, and an action has its name and its word. The methods of scalars
    are left out: no data is equal to them. -/
def Scalar.properties : Scalar → Fields
  | .int n => [("real", .int n), ("imag", .int 0), ("numerator", .int n), ("denominator", .int 1)]
  | .bool b =>
    let n : Int := if b then 1 else 0
    [("real", .int n), ("imag", .int 0), ("numerator", .int n), ("denominator", .int 1)]
  | .float x => [("real", .float x), ("imag", .float (.finite 0))]
  | .action a => [("name", .text a.name), ("value", .text a.text)]
  | .null | .text _ => []

/-- Scalars show nothing but scalars. -/
theorem Scalar.properties_scalar (s : Scalar) :
    ∀ field ∈ s.properties, ∃ part, field.2 = .scalar part := by
  cases s <;> simp [properties]

namespace Store

/-- A property of a node: the program's `get_property`. -/
def property? (store : Store) (node : Value) (key : String) : Option Value :=
  match node with
  | .scalar s => s.properties.lookup key
  | _ => (store.cell? node).bind (·.property? key)

/-- What a node has under a key: `get_property` as patterns use it. A key that is
    no text can be looked up in a mapping only. -/
def valueAt? (store : Store) (node : Value) (key : Scalar) : Except Fault (Option Value) :=
  match key.text? with
  | some name => pure (store.property? node name)
  | none =>
    match store.cell? node with
    | some (.mapping _) => pure none
    | some (.table entries) => pure (entries.value? key)
    | _ => throw (.of (.keyNotText key.kind))

/-- The type of a node, null if it has none: `node_type`. -/
def typeOf (store : Store) (node : Value) : Value :=
  (store.property? node "type").getD .null

/-- The children of a node as they are now, null for a leaf: `node_children`. -/
def children (store : Store) (node : Value) : Value :=
  (store.property? node "children").getD .null

/-- A node with children, be there none in them: `is_parent`. -/
def isParent (store : Store) (node : Value) : Bool :=
  store.children node ≠ .null

/-- A text of more than twenty characters is cut to seventeen and dots. -/
def clipped (s : String) : String :=
  if s.length > 20 then String.ofList (s.toList.take 17) ++ "..." else s

/-- The text that tells a node from others of its type: its name or else its
    value, as messages show it. -/
def caption? (store : Store) (node : Value) : Option String :=
  ["name", "value"].findSome? fun key =>
    match store.property? node key with
    | some (.text s) => some (Text.quoted (clipped s))
    | some (.action a) => some a.shown
    | _ => none

/-- What a label starts with: the type of the node, or else its kind. -/
def head (store : Store) (node : Value) : Value :=
  let type := store.typeOf node
  if store.isTrue type then type else .text (store.kind node).name

/-- A short label for a node, the answer of `describe_node`: its type, or else its
    kind, with its caption.
    A type that is no text is the label itself when there is no caption. -/
def label (store : Store) (node : Value) : Value :=
  match store.caption? node with
  | some caption => .text (store.display (store.head node) ++ "(" ++ caption ++ ")")
  | none => store.head node

/-- Makes the label of a node: `describe_node`. A type that stands before a
    caption is written for it, which fails if the type cannot be written. -/
def describe (store : Store) (node : Value) : Except Fault Value :=
  match store.caption? node, store.unwritable? (store.head node) with
  | some _, some fault => throw fault
  | _, _ => pure (store.label node)

/-- The label of a node in running text. -/
def labelText (store : Store) (node : Value) : Except Fault String := do
  let label ← store.describe node
  store.print label

end Store

end Lineage
