import Lineage.Store

namespace Lineage

mutual

/-- Equality of checks: same form and equal parts. Patterns and predicates
    are equal only to themselves, which two checks by value never are. -/
def Check.equal : Check → Check → Bool
  | .anything, .anything => true
  | .nothing, .nothing => true
  | .typeName a, .typeName b => a.equal b
  | .predicate f, .predicate g => f == g
  | .anyOf as, .anyOf bs => equalAll as bs
  | _, _ => false

/-- Whether two lists of checks are equal place by place. -/
def Check.equalAll : List Check → List Check → Bool
  | [], [] => true
  | a :: as, b :: bs => a.equal b && equalAll as bs
  | _, _ => false

end

/-- Whether two sequences agree place by place, decided from the left. -/
def pairwise (eq : Value → Value → Except Fault Bool) : List Value → List Value → Except Fault Bool
  | [], [] => pure true
  | a :: as, b :: bs => do if ← eq a b then pairwise eq as bs else pure false
  | _, _ => pure false

/-- Whether every field has an equal one of the same name among the others.
    The other value stands on the left of the comparison. -/
def fieldwise (eq : Value → Value → Except Fault Bool) (others : Fields) :
    Fields → Except Fault Bool
  | [] => pure true
  | (key, value) :: rest =>
    match others.lookup key with
    | none => pure false
    | some other => do if ← eq other value then fieldwise eq others rest else pure false

/-- Whether every entry has an equal one under its key among the others. -/
def entrywise (eq : Value → Value → Except Fault Bool) (others : Entries) :
    Entries → Except Fault Bool
  | [] => pure true
  | (key, value) :: rest =>
    match others.value? key with
    | none => pure false
    | some other => do if ← eq other value then entrywise eq others rest else pure false

/-- Whether two tables of the same size have equal entries. -/
def equalTables (eq : Value → Value → Except Fault Bool) (as bs : Entries) : Except Fault Bool :=
  if as.length = bs.length then entrywise eq bs as else pure false

namespace Store

/-- The failure that comparing the value brings about, if it does. -/
def refusal? (store : Store) (value : Value) : Option Fault :=
  match store.cell? value with
  | some (.incomparable category) => some (.of (.raised category "no comparison"))
  | _ => none

/-- Equality of two cells, given that of their parts. Lists of different
    length differ whatever they hold; tuples are compared from the left. -/
def equalCells (eq : Value → Value → Except Fault Bool) : Cell → Cell → Except Fault Bool
  | .list as, .list bs => if as.length = bs.length then pairwise eq as bs else pure false
  | .tuple as, .tuple bs => pairwise eq as bs
  | .mapping as, .mapping bs => if as.length = bs.length then fieldwise eq bs as else pure false
  | .mapping as, .table bs => equalTables eq (Fields.entries as) bs
  | .table as, .mapping bs => equalTables eq as (Fields.entries bs)
  | .table as, .table bs => equalTables eq as bs
  | .directive a, .directive b => pairwise eq [a.action, a.index] [b.action, b.index]
  | .check a, .check b => pure (a.equal b)
  | _, _ => pure false

/-- Equality of values down to a depth. An incomparable value fails the
    comparison, the left one before the right one. A part is equal to itself
    without being compared. -/
def equalAt (store : Store) : Nat → Value → Value → Except Fault Bool
  | 0, _, _ => throw (.of (.tooDeep .comparing))
  | fuel + 1, a, b =>
    match store.refusal? a, store.refusal? b with
    | some fault, _ => throw fault
    | none, some fault => throw fault
    | none, none =>
      match a, b with
      | .scalar x, .scalar y => pure (x.equal y)
      | .function f, .function g => pure (f == g)
      | .cell r, .cell q =>
        if r = q then pure true
        else
          match store.get? r, store.get? q with
          | some x, some y =>
            let part u v := if Value.same u v then pure true else store.equalAt fuel u v
            equalCells part x y
          | _, _ => pure false
      | _, _ => pure false

/-- Equality of values. The depth allowed is that of a value without cycles. -/
def equal (store : Store) (a b : Value) : Except Fault Bool :=
  store.equalAt (store.size + 1) a b

/-- Whether a property has the value that a pattern expects: `_equal`. A boolean agrees
    with booleans only, and values that cannot be compared do not agree. -/
def agrees (store : Store) (actual expected : Value) : Except Fault Bool :=
  if Value.same actual expected then pure true
  else if (store.kind actual == .bool) != (store.kind expected == .bool) then pure false
  else
    match store.equal actual expected with
    | .ok verdict => pure verdict
    | .error fault => if fault.category.isMismatch then pure false else throw fault

end Store

end Lineage
