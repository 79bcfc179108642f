import Lineage.Node
import Mathlib.Algebra.Group.Nat.Defs

namespace Lineage.Store

variable {store : Store} {node : Value}

/-- The label of a node can be made and written: what it starts with can be. -/
def CanLabel (store : Store) (node : Value) : Prop :=
  store.unwritable? (store.head node) = none

instance : Decidable (store.CanLabel node) :=
  inferInstanceAs (Decidable (_ = none))

/-- The label of a node can be made, be it a text or not. -/
def Describes (store : Store) (node : Value) : Prop :=
  store.describe node = .ok (store.label node)

/-- A node gets the same label in another store, of the same kind there, or none
    in either for the same reason. -/
structure DescribesAlike (store other : Store) (node : Value) : Prop where
  label : other.describe node = store.describe node
  kind : ∀ label, store.describe node = .ok label → other.kind label = store.kind label

theorem DescribesAlike.symm {other : Store} (halike : store.DescribesAlike other node) :
    other.DescribesAlike store node where
  label := halike.label.symm
  kind := fun label hlabel => (halike.kind label (halike.label.symm.trans hlabel)).symm

theorem unwritable?_scalar (store : Store) (s : Scalar) :
    store.unwritable? (.scalar s) = if s.isLong then some (.of .unwritableInteger) else none := by
  unfold unwritable?
  cases store.size <;> rfl

theorem unwritable?_text (store : Store) (s : String) : store.unwritable? (.text s) = none := by
  rw [unwritable?_scalar]
  rfl

theorem isLong_of_le {n : Nat} (hlong : 10 ^ Numeral.maxDigits ≤ n) :
    (Scalar.int n).isLong = true := by
  have hdigits : Numeral.maxDigits < (Nat.toDigits 10 n).length := by
    rw [← Nat.not_le, Nat.length_toDigits_le_iff (by decide) (by decide)]
    exact Nat.not_lt.mpr hlong
  rw [Scalar.isLong, Int.natAbs_natCast]
  exact decide_eq_true hdigits

theorem unwritable?_long (store : Store) {n : Nat} (hlong : 10 ^ Numeral.maxDigits ≤ n) :
    store.unwritable? (.int n) = some (.of .unwritableInteger) := by
  rw [unwritable?_scalar, isLong_of_le hlong, if_pos rfl]

/-- A node whose type is a text can be labelled. -/
theorem canLabel_of_text {type : String} (htype : store.typeOf node = .text type) :
    store.CanLabel node := by
  unfold CanLabel head
  rw [htype]
  simp only
  split <;> exact unwritable?_text store _

/-- A node without a type is labelled by its kind. -/
theorem canLabel_of_null (htype : store.typeOf node = .null) : store.CanLabel node := by
  unfold CanLabel head
  rw [htype]
  exact unwritable?_text store _

theorem describe_of_canLabel (hlabel : store.CanLabel node) :
    store.describe node = .ok (store.label node) := by
  unfold describe
  rw [hlabel]
  cases store.caption? node <;> rfl

/-- A label that can be made is the same one wherever it is made. -/
theorem eq_label_of_describe {label : Value} (hlabel : store.describe node = .ok label) :
    label = store.label node := by
  unfold describe at hlabel
  split at hlabel
  · cases hlabel
  · exact (Except.ok.inj hlabel).symm

theorem describes_or_fails (store : Store) (node : Value) :
    store.Describes node ∨ ∃ fault, store.describe node = .error fault := by
  cases hlabel : store.describe node with
  | error fault => exact .inr ⟨fault, rfl⟩
  | ok label =>
    left
    rw [Describes, ← eq_label_of_describe hlabel]
    exact hlabel

theorem labelText_of_canLabel (hlabel : store.CanLabel node) :
    store.labelText node = .ok (store.display (store.label node)) := by
  unfold labelText
  rw [describe_of_canLabel hlabel]
  show store.print (store.label node) = _
  unfold print label
  cases store.caption? node with
  | none =>
    simp only
    rw [hlabel]
    rfl
  | some caption =>
    simp only
    rw [unwritable?_text store]
    rfl

/-- A label that cannot be written fails as its start does, be it before a
    caption or not. -/
theorem labelText_fails {fault : Fault}
    (hhead : store.unwritable? (store.head node) = some fault) :
    store.labelText node = .error fault := by
  unfold labelText describe
  cases hcaption : store.caption? node with
  | none =>
    simp only
    show store.print (store.label node) = _
    unfold print label
    rw [hcaption]
    simp only
    rw [hhead]
    rfl
  | some caption =>
    rw [hhead]
    rfl

/-- A node whose type is an integer of too many digits cannot be labelled. -/
theorem unwritable?_head_of_long {n : Nat} (hlong : 10 ^ Numeral.maxDigits ≤ n)
    (htype : store.typeOf node = .int n) :
    store.unwritable? (store.head node) = some (.of .unwritableInteger) := by
  have hpositive : 0 < n := Nat.lt_of_lt_of_le (Nat.pow_pos (by decide)) hlong
  have htrue : store.isTrue (.int n) = true := by
    simp only [isTrue, Scalar.isTrue, decide_eq_true_eq]
    omega
  unfold head
  rw [htype]
  simp only
  rw [if_pos htrue, unwritable?_long store hlong]

/-- A leaf whose type is a number. -/
def numberLeaf (n : Nat) : Store :=
  ⟨#[.mapping [("type", .int n)]]⟩

theorem unwritable?_numberLeaf {n : Nat} (hlong : 10 ^ Numeral.maxDigits ≤ n) :
    (numberLeaf n).unwritable? ((numberLeaf n).head (.cell ⟨0⟩)) = some (.of .unwritableInteger) :=
  unwritable?_head_of_long hlong rfl

end Lineage.Store
