import Lineage.Store

namespace Lineage

mutual

/-- Puts plain data into a store, every container at a new address. -/
def Datum.build : Datum → Store → Value × Store
  | .scalar s, store => (.scalar s, store)
  | .list items, store =>
    let (values, store) := Datum.buildItems items store
    store.alloc (.list values)
  | .tuple items, store =>
    let (values, store) := Datum.buildItems items store
    store.alloc (.tuple values)
  | .mapping fields, store =>
    let (values, store) := Datum.buildFields fields store
    store.alloc (.mapping values)

/-- Puts the items of a sequence into a store from left to right. -/
def Datum.buildItems : List Datum → Store → List Value × Store
  | [], store => ([], store)
  | item :: rest, store =>
    let (value, store) := item.build store
    let (values, store) := Datum.buildItems rest store
    (value :: values, store)

/-- Puts the fields of a mapping into a store from left to right. -/
def Datum.buildFields : List (String × Datum) → Store → Fields × Store
  | [], store => ([], store)
  | (key, item) :: rest, store =>
    let (value, store) := item.build store
    let (values, store) := Datum.buildFields rest store
    ((key, value) :: values, store)

end

namespace Store

/-- Turns a mapping, and every mapping reached from it through lists of
    children, into elements. Addresses stay as they are. -/
def toElementsAt : Nat → Value → Store → Store
  | 0, _, store => store
  | fuel + 1, node, store =>
    match node with
    | .cell ref =>
      match store.get? ref with
      | some (.mapping fields) =>
        let store := store.put ref (.element fields)
        match (fields.lookup "children").bind store.cell? with
        | some (.list items) => items.foldl (fun store item => toElementsAt fuel item store) store
        | _ => store
      | _ => store
    | _ => store

/-- Turns a tree of mappings into a tree of elements. -/
def toElements (store : Store) (node : Value) : Store :=
  toElementsAt store.size node store

end Store

end Lineage
