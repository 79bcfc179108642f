import Lineage.Node
import Lineage.Store.Build

namespace Lineage

/-- A place in a list as an edit names it; from the end if it is negative. -/
def fromEnd (length : Nat) (place : Int) : Int :=
  if place < 0 then place + length else place

/-- The list with a value before the place; places outside of the list are its
    two ends. -/
def insertedAt (place : Int) (value : Value) (items : List Value) : List Value :=
  let n := (fromEnd items.length place).toNat
  items.take n ++ value :: items.drop n

/-- The list with the value at a place changed, if there is one. -/
def replacedAt (place : Int) (value : Value) (items : List Value) : List Value :=
  if 0 ≤ place then items.set place.toNat value else items

/-- The list without the value at a place, if there is one. -/
def removedAt (place : Int) (items : List Value) : List Value :=
  if 0 ≤ place then items.eraseIdx place.toNat else items

/-- The list up to a place. -/
def truncatedAt (place : Int) (items : List Value) : List Value :=
  items.take (fromEnd items.length place).toNat

/-- The entries with the value under the key replaced, in place when the key is
    present and at the end when it is not. -/
def setEntry (key : Scalar) (value : Value) : Entries → Entries
  | [] => [(key, value)]
  | (k, v) :: rest => if k.equal key then (k, value) :: rest else (k, v) :: setEntry key value rest

/-- The entries without the key. -/
def eraseEntry (key : Scalar) (entries : Entries) : Entries :=
  entries.filter fun entry => !entry.1.equal key

namespace Store

/-- Changes the properties of a node, or the entries of one that has keys of any
    sort; other values have none to change. -/
def updateFields (store : Store) (node : Value) (f : Fields → Fields) (g : Entries → Entries) :
    Store :=
  match node with
  | .cell ref =>
    match store.get? ref with
    | some (.mapping fields) => store.put ref (.mapping (f fields))
    | some (.table entries) => store.put ref (.table (g entries))
    | some (.element fields) => store.put ref (.element (f fields))
    | _ => store
  | _ => store

/-- Sets a property of a node. -/
def setProperty (store : Store) (node : Value) (key : String) (value : Value) : Store :=
  store.updateFields node (setField key value) (setEntry (.text key) value)

/-- Removes a property of a node. -/
def eraseProperty (store : Store) (node : Value) (key : String) : Store :=
  store.updateFields node (eraseField key) (eraseEntry (.text key))

/-- Changes the entries of a mapping, which has keys of any sort from then on. -/
def updateEntries (store : Store) (mapping : Value) (g : Entries → Entries) : Store :=
  match mapping with
  | .cell ref =>
    match store.get? ref with
    | some (.mapping fields) => store.put ref (.table (g fields.entries))
    | some (.table entries) => store.put ref (.table (g entries))
    | _ => store
  | _ => store

/-- Changes a list in place; other values have no items to change. -/
def updateItems (store : Store) (list : Value) (f : List Value → List Value) : Store :=
  match list with
  | .cell ref =>
    match store.get? ref with
    | some (.list items) => store.put ref (.list (f items))
    | _ => store
  | _ => store

/-- Changes the list of children of a node in place. -/
def updateChildren (store : Store) (node : Value) (f : List Value → List Value) : Store :=
  match store.cell? node with
  | some (.mapping _) | some (.table _) | some (.element _) => store.updateItems (store.children node) f
  | _ => store

end Store

/-- A step into nested data: a key of a mapping, as a text or of any sort, or a
    place in a list. -/
inductive PathStep where
  | key (key : String)
  | entry (key : Scalar)
  | place (place : Int)

namespace Store

/-- The part of a value that a step leads to. -/
def stepInto (store : Store) (value : Value) : PathStep → Value
  | .key key =>
    match store.cell? value with
    | some (.mapping fields) => (fields.lookup key).getD .null
    | some (.table entries) => (entries.value? (.text key)).getD .null
    | _ => .null
  | .entry key =>
    match store.cell? value with
    | some (.mapping fields) => (fields.entries.value? key).getD .null
    | some (.table entries) => (entries.value? key).getD .null
    | _ => .null
  | .place place =>
    match store.cell? value with
    | some (.list items) | some (.tuple items) =>
      items[(fromEnd items.length place).toNat]?.getD .null
    | _ => .null

/-- The part of a value at the end of a path. -/
def follow (store : Store) (value : Value) (path : List PathStep) : Value :=
  path.foldl store.stepInto value

/-- Sets what a step from a container leads to. -/
def setStep (store : Store) (container : Value) (step : PathStep) (value : Value) : Store :=
  match step with
  | .key key => store.setProperty container key value
  | .entry key => store.updateEntries container (setEntry key value)
  | .place place =>
    store.updateItems container fun items => replacedAt (fromEnd items.length place) value items

/-- Removes what a step from a container leads to. -/
def eraseStep (store : Store) (container : Value) : PathStep → Store
  | .key key => store.eraseProperty container key
  | .entry key => store.updateEntries container (eraseEntry key)
  | .place place =>
    store.updateItems container fun items => removedAt (fromEnd items.length place) items

end Store

/-- A change to nested data that is made in place. -/
inductive DataEdit where
  | set (path : List PathStep) (value : Value)
  | erase (path : List PathStep)
  | append (path : List PathStep) (value : Value)

/-- Makes a change. The path of a change leads from `root` to what is changed;
    the path of an addition leads to the list that grows. -/
def DataEdit.apply (store : Store) (root : Value) : DataEdit → Store
  | .set path value =>
    match path.getLast? with
    | some step => store.setStep (store.follow root path.dropLast) step value
    | none => store
  | .erase path =>
    match path.getLast? with
    | some step => store.eraseStep (store.follow root path.dropLast) step
    | none => store
  | .append path value => store.updateItems (store.follow root path) (· ++ [value])

end Lineage
