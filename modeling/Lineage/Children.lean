import Lineage.Node

namespace Lineage

/-- The place that a cursor points to, if it is a whole number. -/
def Value.position? : Value → Option Int
  | .int n => some n
  | .bool b => some (if b then 1 else 0)
  | _ => none

/-- The cursor moved by a number of places. -/
def Value.moved (cursor : Value) (places : Int) : Value :=
  match cursor.position? with
  | some n => .int (n + places)
  | none => cursor

/-- Whether a cursor stands before the end of a sequence. -/
def Value.isBelow (cursor : Value) (length : Nat) : Bool :=
  match cursor with
  | .float x => x.ltInt length
  | _ =>
    match cursor.position? with
    | some n => n < length
    | none => false

namespace Store

/-- The members of a sequence in order. The members of a text are its
    characters. -/
def members? (store : Store) : Value → Option (List Value)
  | .text s => some (s.toList.map fun c => .text c.toString)
  | .action a => some (a.text.toList.map fun c => .text c.toString)
  | value =>
    match store.cell? value with
    | some (.list items) | some (.tuple items) => some items
    | _ => none

/-- How many members a sequence or mapping has; nothing else has a length. -/
def lengthOf (store : Store) (value : Value) : Except Fault Nat :=
  match store.members? value with
  | some members => pure members.length
  | none =>
    match store.cell? value with
    | some (.mapping fields) => pure fields.length
    | some (.table entries) => pure entries.length
    | _ => throw (.of (.noLength (store.kind value)))

/-- Whether a cursor is at or after the first place. Only numbers can be
    compared with a place. -/
def isFromStart (store : Store) (cursor : Value) : Except Fault Bool :=
  match cursor with
  | .float x => pure (x.intLe 0)
  | _ =>
    match cursor.position? with
    | some n => pure (0 ≤ n)
    | none => throw (.of (.unordered "<=" .int (store.kind cursor)))

/-- The member at a cursor. A mapping has the member whose key the cursor is, and
    a sequence takes whole numbers only. -/
def memberAt (store : Store) (sequence cursor : Value) : Except Fault Value :=
  match store.members? sequence, cursor.position? with
  | some members, some n => pure (members[n.toNat]?.getD .null)
  | some _, none => throw (.of (.badIndex (store.kind sequence) (store.kind cursor)))
  | none, _ =>
    match store.cell? sequence, cursor with
    | some (.table entries), .scalar key =>
      match entries.value? key with
      | some member => pure member
      | none => throw (.of (.missingKey key))
    | _, .scalar key => throw (.of (.missingKey key))
    | _, _ => throw (.of (.unhashable (store.kind cursor)))

/-- The child at a cursor, if the cursor is inside the children as they are
    now. Their length is looked at only when the cursor is not negative. -/
def childAt (store : Store) (children cursor : Value) : Except Fault (Option Value) :=
  if children = .null then pure none
  else do
    if ← store.isFromStart cursor then
      let length ← store.lengthOf children
      if cursor.isBelow length then
        let child ← store.memberAt children cursor
        pure (some child)
      else pure none
    else pure none

end Store

end Lineage
