import Lineage.Collect

namespace Lineage

/-- How often a type came up. -/
structure Tally where
  type : Scalar
  count : Nat

namespace Tally

/-- Counts one more of a type. Types of equal content are one type, shown as it
    came up first. -/
def add (type : Scalar) : List Tally → List Tally
  | [] => [⟨type, 1⟩]
  | tally :: rest =>
    if tally.type.content = type.content then { tally with count := tally.count + 1 } :: rest
    else tally :: add type rest

/-- Counts a list of types; only scalars can be counted. -/
def addAll : List Tally → List Datum → Except Fault (List Tally)
  | tallies, [] => pure tallies
  | tallies, .scalar type :: rest => addAll (add type tallies) rest
  | _, datum :: _ => throw (.of (.unhashable datum.kind))

/-- The tallies by falling count; equal counts stay in the order of first
    sight. -/
def ranked (tallies : List Tally) : List Tally :=
  tallies.mergeSort fun a b => b.count ≤ a.count

/-- The tallies of the types of findings: the `Counter` of `count`. -/
def ofFindings (findings : List Finding) : Except Fault (List Tally) := do
  let tallies ← addAll [] (findings.map Finding.type)
  pure (ranked tallies)

end Tally

end Lineage
