import Lineage.Proofs.Store.Growth
import Lineage.Proofs.Store.StructuralEquality

namespace Lineage

/-- Plain data at a value of a store, with all its cells in a region. A cell may
    serve for several parts. Mappings have keys of their own. -/
inductive Datum.LiesAt (store : Store) (region : Ref → Prop) : Datum → Value → Prop where
  | scalar (s : Scalar) : LiesAt store region (.scalar s) (.scalar s)
  | list {items : List Datum} {values : List Value} {ref : Ref} (hregion : region ref)
      (hget : store.get? ref = some (.list values)) (hlength : items.length = values.length)
      (hparts : ∀ part ∈ items.zip values, LiesAt store region part.1 part.2) :
      LiesAt store region (.list items) (.cell ref)
  | tuple {items : List Datum} {values : List Value} {ref : Ref} (hregion : region ref)
      (hget : store.get? ref = some (.tuple values)) (hlength : items.length = values.length)
      (hparts : ∀ part ∈ items.zip values, LiesAt store region part.1 part.2) :
      LiesAt store region (.tuple items) (.cell ref)
  | mapping {fields : List (String × Datum)} {values : Fields} {ref : Ref}
      (hregion : region ref) (hget : store.get? ref = some (.mapping values))
      (hkeys : fields.map Prod.fst = values.map Prod.fst) (hnodup : (fields.map Prod.fst).Nodup)
      (hparts : ∀ key item value, (key, item) ∈ fields → (key, value) ∈ values →
        LiesAt store region item value) : LiesAt store region (.mapping fields) (.cell ref)

/-- Compound values, all of them different, that hold a datum in themselves. -/
structure Store.Beneath (store : Store) (path : List Ref) (datum : Datum) : Prop where
  nodup : path.Nodup
  held : ∀ ref ∈ path, ref.address < store.size
  larger : ∀ ref ∈ path, ∃ whole region, Datum.LiesAt store region whole (.cell ref) ∧
    sizeOf datum < sizeOf whole

/-- Equality of the parts of two cells: a part is equal to itself without being
    compared. -/
def Store.partAt (store : Store) (fuel : Nat) (u v : Value) : Except Fault Bool :=
  if Value.same u v then pure true else store.equalAt fuel u v

namespace Datum

section Places

variable {store : Store} {p q : Ref → Prop} {datum other : Datum} {a b : Value}

theorem lookup_eq_none_iff_notMem {α : Type} {fields : List (String × α)} {key : String} :
    fields.lookup key = none ↔ key ∉ fields.map Prod.fst := by
  simp only [List.lookup_eq_none_iff, List.mem_map, not_exists, not_and, bne_iff_ne]
  exact ⟨fun hnone field hfield hkey => hnone field hfield hkey.symm,
    fun hnone field hfield hkey => hnone field hfield hkey.symm⟩

theorem exists_partner {α β : Type} {fields : List (String × α)} {values : List (String × β)}
    {key : String} {item : α} (hkeys : fields.map Prod.fst = values.map Prod.fst)
    (hitem : (key, item) ∈ fields) : ∃ value, (key, value) ∈ values := by
  have hkey : key ∈ values.map Prod.fst := hkeys ▸ List.mem_map_of_mem hitem
  obtain ⟨⟨_, value⟩, hvalue, rfl⟩ := List.mem_map.mp hkey
  exact ⟨value, hvalue⟩

theorem eq_of_keys {α : Type} {fields others : List (String × α)}
    (hkeys : fields.map Prod.fst = others.map Prod.fst)
    (hsame : ∀ key item other, (key, item) ∈ fields → (key, other) ∈ others → item = other) :
    fields = others := by
  induction fields generalizing others with
  | nil => exact (List.map_eq_nil_iff.mp hkeys.symm).symm
  | cons field rest ih =>
    obtain ⟨other, others, rfl, hkey, hmore⟩ := List.map_eq_cons_iff.mp hkeys.symm
    obtain ⟨key, item⟩ := field
    obtain ⟨name, value⟩ := other
    obtain rfl : name = key := hkey
    rw [hsame name item value (by simp) (by simp), ih hmore.symm fun key item other hitem hother =>
      hsame key item other (by simp [hitem]) (by simp [hother])]

theorem sizeOf_lt_list {items : List Datum} {item : Datum} (hitem : item ∈ items) :
    sizeOf item < sizeOf (list items) := by
  have hless := List.sizeOf_lt_of_mem hitem
  rw [list.sizeOf_spec]
  omega

theorem sizeOf_lt_tuple {items : List Datum} {item : Datum} (hitem : item ∈ items) :
    sizeOf item < sizeOf (tuple items) := by
  have hless := List.sizeOf_lt_of_mem hitem
  rw [tuple.sizeOf_spec]
  omega

theorem sizeOf_lt_mapping {fields : List (String × Datum)} {key : String} {item : Datum}
    (hitem : (key, item) ∈ fields) : sizeOf item < sizeOf (mapping fields) := by
  have hless := List.sizeOf_lt_of_mem hitem
  rw [Prod.mk.sizeOf_spec] at hless
  rw [mapping.sizeOf_spec]
  omega

theorem LiesAt.isKeyed (hlies : datum.LiesAt store p a) : datum.IsKeyed := by
  have hitems : ∀ {items : List Datum} {values : List Value}, items.length = values.length →
      (∀ part ∈ items.zip values, part.1.IsKeyed) → ∀ item ∈ items, item.IsKeyed := by
    intro items values hlength hparts item hitem
    rw [← List.map_fst_zip (Nat.le_of_eq hlength)] at hitem
    obtain ⟨part, hpart, rfl⟩ := List.mem_map.mp hitem
    exact hparts part hpart
  induction hlies with
  | scalar s => exact .scalar s
  | list _ _ hlength _ ih => exact .list (hitems hlength ih)
  | tuple _ _ hlength _ ih => exact .tuple (hitems hlength ih)
  | mapping _ _ hkeys hnodup _ ih =>
    refine .mapping hnodup ?_
    rintro ⟨key, item⟩ hitem
    obtain ⟨value, hvalue⟩ := exists_partner hkeys hitem
    exact ih key item value hitem hvalue

/-- Only one datum lies at a value. -/
theorem LiesAt.unique (hlies : datum.LiesAt store p a) (hagain : other.LiesAt store q a) :
    datum = other := by
  have hitems : ∀ {items others : List Datum} {values : List Value},
      items.length = values.length → others.length = values.length →
      (∀ part ∈ items.zip values, ∀ {other : Datum}, other.LiesAt store q part.2 → part.1 = other) →
      (∀ part ∈ others.zip values, part.1.LiesAt store q part.2) → items = others := by
    intro items others values hlength hothers hsame hlies
    have hleft : List.Forall₂ (fun item value => ∀ {other : Datum}, other.LiesAt store q value →
        item = other) items values := List.forall₂_iff_zip.mpr ⟨hlength, hsame _⟩
    have hright : List.Forall₂ (fun other value => Datum.LiesAt store q other value) others values :=
      List.forall₂_iff_zip.mpr ⟨hothers, hlies _⟩
    rw [← List.forall₂_eq_eq_eq]
    exact forall₂_comp hleft hright.flip fun _ _ _ _ _ _ hsame hlies => hsame hlies
  induction hlies generalizing other with
  | scalar s =>
    cases hagain
    rfl
  | @list items values ref _ hget hlength hparts ih =>
    cases hagain with
    | list _ hsame hothers hlies =>
      rw [hget] at hsame
      cases hsame
      rw [hitems hlength hothers ih hlies]
    | tuple _ hsame => simp [hget] at hsame
    | mapping _ hsame => simp [hget] at hsame
  | @tuple items values ref _ hget hlength hparts ih =>
    cases hagain with
    | list _ hsame => simp [hget] at hsame
    | tuple _ hsame hothers hlies =>
      rw [hget] at hsame
      cases hsame
      rw [hitems hlength hothers ih hlies]
    | mapping _ hsame => simp [hget] at hsame
  | @mapping fields values ref _ hget hkeys hnodup hparts ih =>
    cases hagain with
    | list _ hsame => simp [hget] at hsame
    | tuple _ hsame => simp [hget] at hsame
    | @mapping others _ _ _ hsame hothers _ hlies =>
      rw [hget] at hsame
      cases hsame
      congr 1
      refine eq_of_keys (hkeys.trans hothers.symm) fun key item other hitem hother => ?_
      obtain ⟨value, hvalue⟩ := exists_partner hkeys hitem
      exact ih key item value hitem hvalue (hlies key other value hother hvalue)

/-- The cells that hold a datum leave some depth for it. -/
theorem exists_less {path : List Ref} {fuel : Nat} (hbeneath : store.Beneath path datum)
    (hfuel : fuel + path.length = store.size + 1) :
    ∃ less, fuel = less + 1 ∧ ∀ ref : Ref, less + (ref :: path).length = store.size + 1 := by
  have hpath := Store.length_le_size hbeneath.nodup hbeneath.held
  refine ⟨fuel - 1, by omega, fun ref => ?_⟩
  rw [List.length_cons]
  omega

/-- A cell at which a datum lies is not among those that hold the datum. -/
theorem LiesAt.beneath {path : List Ref} {ref : Ref} (hlies : datum.LiesAt store p (.cell ref))
    (hbeneath : store.Beneath path datum) {part : Datum} (hpart : sizeOf part < sizeOf datum) :
    store.Beneath (ref :: path) part := by
  have hnew : ref ∉ path := by
    intro hmem
    obtain ⟨whole, region, hwhole, hless⟩ := hbeneath.larger ref hmem
    rw [hlies.unique hwhole] at hless
    exact Nat.lt_irrefl _ hless
  have hheld : ref.address < store.size := by
    cases hlies with
    | list _ hget => exact Store.address_lt_of_get? hget
    | tuple _ hget => exact Store.address_lt_of_get? hget
    | mapping _ hget => exact Store.address_lt_of_get? hget
  refine ⟨List.nodup_cons.mpr ⟨hnew, hbeneath.nodup⟩, List.forall_mem_cons.mpr ⟨hheld, hbeneath.held⟩,
    List.forall_mem_cons.mpr ⟨⟨datum, p, hlies, hpart⟩, fun other hother => ?_⟩⟩
  obtain ⟨whole, region, hwhole, hless⟩ := hbeneath.larger other hother
  exact ⟨whole, region, hwhole, Nat.lt_trans hpart hless⟩

theorem LiesAt.refusal?_eq (hlies : datum.LiesAt store p a) : store.refusal? a = none := by
  cases hlies with
  | scalar s => rfl
  | list _ hget => simp [Store.refusal?, Store.cell?, hget]
  | tuple _ hget => simp [Store.refusal?, Store.cell?, hget]
  | mapping _ hget => simp [Store.refusal?, Store.cell?, hget]

theorem LiesAt.kind_eq (hlies : datum.LiesAt store p a) : store.kind a = datum.kind := by
  cases hlies with
  | scalar s => rfl
  | list _ hget => simp [Store.kind, hget, Cell.kind, Datum.kind]
  | tuple _ hget => simp [Store.kind, hget, Cell.kind, Datum.kind]
  | mapping _ hget => simp [Store.kind, hget, Cell.kind, Datum.kind]

theorem LiesAt.region {ref : Ref} (hlies : datum.LiesAt store p (.cell ref)) : p ref := by
  cases hlies <;> assumption

/-- Data in regions apart share no object. -/
theorem LiesAt.not_same (hapart : ∀ ref, p ref → ¬ q ref) (hlies : datum.LiesAt store p a)
    (hother : other.LiesAt store q b) : Value.same a b = false ∧ Value.same b a = false := by
  cases a with
  | scalar s => cases b <;> exact ⟨rfl, rfl⟩
  | function f => cases hlies
  | cell ref =>
    cases b with
    | scalar s => exact ⟨rfl, rfl⟩
    | function g => cases hother
    | cell place =>
      have hne : ref ≠ place := by
        rintro rfl
        exact hapart ref hlies.region hother.region
      exact ⟨decide_eq_false hne, decide_eq_false hne.symm⟩

end Places

section Building

variable {store later : Store} {p q : Ref → Prop} {datum : Datum} {value : Value}

theorem LiesAt.widen (hlies : datum.LiesAt store p value) (hregion : ∀ ref, p ref → q ref) :
    datum.LiesAt store q value := by
  induction hlies with
  | scalar s => exact .scalar s
  | list hp hget hlength _ ih => exact .list (hregion _ hp) hget hlength ih
  | tuple hp hget hlength _ ih => exact .tuple (hregion _ hp) hget hlength ih
  | mapping hp hget hkeys hnodup _ ih => exact .mapping (hregion _ hp) hget hkeys hnodup ih

theorem size_le_of_extends (hextends : store.Extends later) : store.size ≤ later.size := by
  by_contra hless
  have hold : later.size < store.cells.size := Nat.lt_of_not_le hless
  have hget : store.get? ⟨later.size⟩ = some store.cells[later.size] :=
    Array.getElem?_eq_getElem hold
  exact Nat.lt_irrefl _ (Store.address_lt_of_get? (hextends _ _ hget))

/-- The addresses that came into use between two stores. -/
def Since (earlier later : Store) (ref : Ref) : Prop :=
  earlier.size ≤ ref.address ∧ ref.address < later.size

theorem Since.mono {before after : Store} {ref : Ref} (hsince : Since store later ref)
    (hbefore : before.size ≤ store.size) (hafter : later.size ≤ after.size) :
    Since before after ref :=
  ⟨Nat.le_trans hbefore hsince.1, Nat.lt_of_lt_of_le hsince.2 hafter⟩

/-- What came into use by then does not come into use later. -/
theorem Since.apart {middle last : Store} {ref : Ref} (hsince : Since store later ref)
    (hafter : later.size ≤ middle.size) : ¬ Since middle last ref := by
  intro hagain
  exact Nat.not_le_of_lt hsince.2 (Nat.le_trans hafter hagain.1)

theorem since_alloc {earlier : Store} (hextends : earlier.Extends store) (cell : Cell) :
    Since earlier (store.alloc cell).2 ⟨store.size⟩ := by
  refine ⟨size_le_of_extends hextends, ?_⟩
  simp [Store.alloc, Store.size]

mutual

/-- Any data with keys of their own lie where they are put, in new cells. -/
theorem liesAt_build (datum : Datum) (store : Store) (hkeyed : datum.IsKeyed)
    (hextends : (datum.build store).2.Extends later) :
    datum.LiesAt later (Since store (datum.build store).2) (datum.build store).1 := by
  have hnew : ∀ {cell : Cell} {middle : Store} {ref : Ref}, Since store middle ref →
      Since store (middle.alloc cell).2 ref := fun hsince =>
    hsince.mono (Nat.le_refl _) (size_le_of_extends (Store.extends_alloc _ _))
  cases datum with
  | scalar s => exact .scalar s
  | list items =>
    cases hkeyed with
    | list hitems =>
      have hlater := (Store.extends_alloc _ _).trans hextends
      obtain ⟨hlength, hparts⟩ := liesAt_buildItems items store hitems hlater
      exact .list (since_alloc (extends_buildItems items store) _)
        (hextends _ _ (Store.get?_alloc_self _ _)) hlength
        fun part hpart => (hparts part hpart).widen fun _ => hnew
  | tuple items =>
    cases hkeyed with
    | tuple hitems =>
      have hlater := (Store.extends_alloc _ _).trans hextends
      obtain ⟨hlength, hparts⟩ := liesAt_buildItems items store hitems hlater
      exact .tuple (since_alloc (extends_buildItems items store) _)
        (hextends _ _ (Store.get?_alloc_self _ _)) hlength
        fun part hpart => (hparts part hpart).widen fun _ => hnew
  | mapping fields =>
    cases hkeyed with
    | mapping hnodup hitems =>
      have hlater := (Store.extends_alloc _ _).trans hextends
      obtain ⟨hkeys, hparts⟩ := liesAt_buildFields fields store hnodup hitems hlater
      exact .mapping (since_alloc (extends_buildFields fields store) _)
        (hextends _ _ (Store.get?_alloc_self _ _)) hkeys hnodup
        fun key item value hitem hvalue => (hparts key item value hitem hvalue).widen fun _ => hnew

theorem liesAt_buildItems (items : List Datum) (store : Store)
    (hkeyed : ∀ item ∈ items, item.IsKeyed) (hextends : (buildItems items store).2.Extends later) :
    items.length = (buildItems items store).1.length ∧
      ∀ part ∈ items.zip (buildItems items store).1,
        part.1.LiesAt later (Since store (buildItems items store).2) part.2 := by
  cases items with
  | nil => exact ⟨rfl, by simp [buildItems]⟩
  | cons item rest =>
    obtain ⟨hitem, hrest⟩ := List.forall_mem_cons.mp hkeyed
    have hmiddle := extends_build item store
    have hafter := extends_buildItems rest (item.build store).2
    obtain ⟨hlength, hparts⟩ := liesAt_buildItems rest (item.build store).2 hrest hextends
    have hfirst := liesAt_build item store hitem (hafter.trans hextends)
    refine ⟨congrArg (· + 1) hlength, List.forall_mem_cons.mpr ⟨?_, fun part hpart => ?_⟩⟩
    · exact hfirst.widen fun _ hsince => hsince.mono (Nat.le_refl _) (size_le_of_extends hafter)
    · exact (hparts part hpart).widen fun _ hsince =>
        hsince.mono (size_le_of_extends hmiddle) (Nat.le_refl _)

theorem liesAt_buildFields (fields : List (String × Datum)) (store : Store)
    (hnodup : (fields.map Prod.fst).Nodup)
    (hkeyed : ∀ field ∈ fields, field.2.IsKeyed)
    (hextends : (buildFields fields store).2.Extends later) :
    fields.map Prod.fst = (buildFields fields store).1.map Prod.fst ∧
      ∀ key item value, (key, item) ∈ fields → (key, value) ∈ (buildFields fields store).1 →
        item.LiesAt later (Since store (buildFields fields store).2) value := by
  cases fields with
  | nil => exact ⟨rfl, by simp⟩
  | cons field rest =>
    obtain ⟨hitem, hrest⟩ := List.forall_mem_cons.mp hkeyed
    obtain ⟨hnew, hothers⟩ := List.nodup_cons.mp hnodup
    have hmiddle := extends_build field.2 store
    have hafter := extends_buildFields rest (field.2.build store).2
    obtain ⟨hkeys, hparts⟩ := liesAt_buildFields rest (field.2.build store).2 hothers hrest hextends
    have hfirst := liesAt_build field.2 store hitem (hafter.trans hextends)
    refine ⟨congrArg (field.1 :: ·) hkeys, fun key item value hmem hvalue => ?_⟩
    rcases List.mem_cons.mp hmem with rfl | hmem
    · rcases List.mem_cons.mp hvalue with hsame | hvalue
      · obtain ⟨-, rfl⟩ := Prod.mk.inj hsame
        exact hfirst.widen fun _ hsince => hsince.mono (Nat.le_refl _) (size_le_of_extends hafter)
      · exact (hnew (hkeys ▸ List.mem_map_of_mem hvalue)).elim
    · rcases List.mem_cons.mp hvalue with hsame | hvalue
      · obtain ⟨rfl, -⟩ := Prod.mk.inj hsame
        exact (hnew (List.mem_map.mpr ⟨_, hmem, rfl⟩)).elim
      · exact (hparts key item value hmem hvalue).widen fun _ hsince =>
          hsince.mono (size_le_of_extends hmiddle) (Nat.le_refl _)

end

end Building

section Comparison

variable {eq : Value → Value → Except Fault Bool}

/-- Sequences are compared as the data that lie there. -/
theorem pairwise_eq {items others : List Datum} {as bs : List Value}
    (hitems : items.length = as.length) (hothers : others.length = bs.length)
    (heq : ∀ x ∈ items.zip as, ∀ y ∈ others.zip bs, eq x.2 y.2 = .ok (x.1.equal y.1)) :
    pairwise eq as bs = .ok (equalItems items others) := by
  induction items generalizing others as bs with
  | nil =>
    obtain rfl := List.eq_nil_of_length_eq_zero hitems.symm
    cases bs <;> cases others <;> first | rfl | simp at hothers
  | cons item items ih =>
    obtain ⟨a, as, rfl⟩ := List.exists_cons_of_length_eq_add_one hitems.symm
    cases others with
    | nil =>
      obtain rfl := List.eq_nil_of_length_eq_zero hothers.symm
      rfl
    | cons other others =>
      obtain ⟨b, bs, rfl⟩ := List.exists_cons_of_length_eq_add_one hothers.symm
      simp only [List.zip_cons_cons, List.forall_mem_cons] at heq
      have hrest := ih (by simpa using hitems) (by simpa using hothers)
        fun x hx y hy => (heq.2 x hx).2 y hy
      rw [pairwise, heq.1.1, equalItems]
      cases item.equal other with
      | true => exact hrest
      | false => rfl

/-- Mappings are compared as the data that lie there. The value on the right is
    put on the left of the comparison. -/
theorem fieldwise_eq {fields others : List (String × Datum)} {as bs : Fields}
    (hfields : fields.map Prod.fst = as.map Prod.fst)
    (hothers : others.map Prod.fst = bs.map Prod.fst)
    (heq : ∀ key item value other partner, (key, item) ∈ fields → (key, value) ∈ as →
      (key, other) ∈ others → (key, partner) ∈ bs → eq partner value = .ok (item.equal other)) :
    fieldwise eq bs as = .ok (equalFields fields others) := by
  induction fields generalizing as with
  | nil =>
    obtain rfl := List.map_eq_nil_iff.mp hfields.symm
    rfl
  | cons field fields ih =>
    obtain ⟨value, as, rfl, hkey, hmore⟩ := List.map_eq_cons_iff.mp hfields.symm
    obtain ⟨key, item⟩ := field
    obtain ⟨name, value⟩ := value
    obtain rfl : name = key := hkey
    have hrest := ih hmore.symm fun key item value other partner hitem hvalue =>
      heq key item value other partner (by simp [hitem]) (by simp [hvalue])
    rw [fieldwise, equalFields]
    cases hother : others.lookup name with
    | none =>
      have hnone : bs.lookup name = none := by
        rw [lookup_eq_none_iff_notMem] at hother ⊢
        rwa [← hothers]
      rw [hnone]
      rfl
    | some other =>
      cases hpartner : bs.lookup name with
      | none =>
        rw [lookup_eq_none_iff_notMem, ← hothers, ← lookup_eq_none_iff_notMem, hother] at hpartner
        cases hpartner
      | some partner =>
        have hfirst := heq name item value other partner (by simp) (by simp)
          (mem_of_lookup_eq_some hother) (mem_of_lookup_eq_some hpartner)
        simp only [hfirst, Option.any_some]
        cases item.equal other with
        | true => exact hrest
        | false => rfl

/-- Lists of different length are told apart at once, which makes no difference. -/
theorem equalCells_list {items others : List Datum} {as bs : List Value}
    (hitems : items.length = as.length) (hothers : others.length = bs.length)
    (hpairs : pairwise eq as bs = .ok (equalItems items others)) :
    Store.equalCells eq (.list as) (.list bs) = .ok ((list items).equal (list others)) := by
  rw [Store.equalCells, equal]
  split
  · exact hpairs
  · next hlength =>
    have hdiffer : equalItems items others = false := by
      rw [Bool.eq_false_iff, Ne, equalItems_iff]
      intro hplaces
      exact hlength (by rw [← hitems, ← hothers, hplaces.length_eq])
    rw [hdiffer]
    rfl

theorem equalCells_mapping {fields others : List (String × Datum)} {as bs : Fields}
    (hfields : fields.map Prod.fst = as.map Prod.fst)
    (hothers : others.map Prod.fst = bs.map Prod.fst)
    (hfound : fieldwise eq bs as = .ok (equalFields fields others)) :
    Store.equalCells eq (.mapping as) (.mapping bs) =
      .ok ((mapping fields).equal (mapping others)) := by
  have hleft : fields.length = as.length := by simpa using congrArg List.length hfields
  have hright : others.length = bs.length := by simpa using congrArg List.length hothers
  rw [Store.equalCells, equal, hleft, hright]
  split
  · next hlength => rw [hfound, beq_iff_eq.mpr hlength, Bool.true_and]
  · next hlength =>
    rw [beq_eq_false_iff_ne.mpr hlength, Bool.false_and]
    rfl

end Comparison

section Bridge

variable {store : Store} {p q : Ref → Prop} {datum other : Datum} {a b : Value}

/-- Two cells that can be compared are compared by their parts. -/
theorem equalAt_cells {ref place : Ref} {x y : Cell} (hne : Value.same (.cell ref) (.cell place) = false)
    (hx : store.get? ref = some x) (hy : store.get? place = some y)
    (hleft : store.refusal? (.cell ref) = none) (hright : store.refusal? (.cell place) = none)
    (fuel : Nat) : store.equalAt (fuel + 1) (.cell ref) (.cell place) =
      Store.equalCells (store.partAt fuel) x y := by
  have hdiffer : ref ≠ place := of_decide_eq_false hne
  simp only [Store.equalAt, hleft, hright, hdiffer, hx, hy, if_false]
  rfl

/-- No container equals a scalar. -/
theorem equalAt_scalar {ref : Ref} (hcell : store.refusal? (.cell ref) = none) (s : Scalar)
    (fuel : Nat) : store.equalAt (fuel + 1) (.scalar s) (.cell ref) = .ok false ∧
      store.equalAt (fuel + 1) (.cell ref) (.scalar s) = .ok false := by
  simp only [Store.equalAt, hcell]
  exact ⟨rfl, rfl⟩

/-- Two values are compared as the data that lie there, from either side. -/
def ComparedAs (store : Store) (fuel : Nat) (a b : Value) (datum other : Datum) : Prop :=
  store.equalAt fuel a b = .ok (datum.equal other) ∧
    store.equalAt fuel b a = .ok (other.equal datum)

section Parts

variable {fuel : Nat} (hapart : ∀ ref, p ref → ¬ q ref)

include hapart

theorem ComparedAs.partAt (hlies : datum.LiesAt store p a) (hother : other.LiesAt store q b)
    (hcompared : ComparedAs store fuel a b datum other) :
    store.partAt fuel a b = .ok (datum.equal other) ∧
      store.partAt fuel b a = .ok (other.equal datum) := by
  obtain ⟨hleft, hright⟩ := hlies.not_same hapart hother
  simp only [Store.partAt, hleft, hright, Bool.false_eq_true, if_false]
  exact hcompared

theorem comparedAs_cells {ref place : Ref} {x y : Cell}
    (hlies : datum.LiesAt store p (.cell ref)) (hother : other.LiesAt store q (.cell place))
    (hx : store.get? ref = some x) (hy : store.get? place = some y)
    (hleft : Store.equalCells (store.partAt fuel) x y = .ok (datum.equal other))
    (hright : Store.equalCells (store.partAt fuel) y x = .ok (other.equal datum)) :
    ComparedAs store (fuel + 1) (.cell ref) (.cell place) datum other := by
  obtain ⟨hsame, hback⟩ := hlies.not_same hapart hother
  rw [ComparedAs, equalAt_cells hsame hx hy hlies.refusal?_eq hother.refusal?_eq,
    equalAt_cells hback hy hx hother.refusal?_eq hlies.refusal?_eq]
  exact ⟨hleft, hright⟩

theorem pairwise_parts {items others : List Datum} {as bs : List Value}
    (hitems : items.length = as.length) (hothers : others.length = bs.length)
    (hparts : ∀ x ∈ items.zip as, x.1.LiesAt store p x.2)
    (hlies : ∀ y ∈ others.zip bs, y.1.LiesAt store q y.2)
    (hcompared : ∀ x ∈ items.zip as, ∀ y ∈ others.zip bs,
      ComparedAs store fuel x.2 y.2 x.1 y.1) :
    pairwise (store.partAt fuel) as bs = .ok (equalItems items others) ∧
      pairwise (store.partAt fuel) bs as = .ok (equalItems others items) := by
  have hboth := fun x hx y hy =>
    ComparedAs.partAt hapart (hparts x hx) (hlies y hy) (hcompared x hx y hy)
  exact ⟨pairwise_eq hitems hothers fun x hx y hy => (hboth x hx y hy).1,
    pairwise_eq hothers hitems fun y hy x hx => (hboth x hx y hy).2⟩

theorem fieldwise_parts {fields others : List (String × Datum)} {as bs : Fields}
    (hfields : fields.map Prod.fst = as.map Prod.fst)
    (hothers : others.map Prod.fst = bs.map Prod.fst)
    (hparts : ∀ key item value, (key, item) ∈ fields → (key, value) ∈ as →
      item.LiesAt store p value)
    (hlies : ∀ key other value, (key, other) ∈ others → (key, value) ∈ bs →
      other.LiesAt store q value)
    (hcompared : ∀ key item value other partner, (key, item) ∈ fields → (key, value) ∈ as →
      (key, other) ∈ others → (key, partner) ∈ bs →
      ComparedAs store fuel value partner item other) :
    fieldwise (store.partAt fuel) bs as = .ok (equalFields fields others) ∧
      fieldwise (store.partAt fuel) as bs = .ok (equalFields others fields) := by
  have hboth := fun key item value other partner hitem hvalue hother hpartner =>
    ComparedAs.partAt hapart (hparts key item value hitem hvalue)
      (hlies key other partner hother hpartner)
      (hcompared key item value other partner hitem hvalue hother hpartner)
  -- The fields of the right side are looked up, so that the sides are exchanged.
  refine ⟨fieldwise_eq hfields hothers ?_, fieldwise_eq hothers hfields ?_⟩
  · intro key item value other partner hitem hvalue hother hpartner
    rw [(hboth key item value other partner hitem hvalue hother hpartner).2,
      (hlies key other partner hother hpartner).isKeyed.equal_comm
        (hparts key item value hitem hvalue).isKeyed]
  · intro key other partner item value hother hpartner hitem hvalue
    rw [(hboth key item value other partner hitem hvalue hother hpartner).1,
      (hparts key item value hitem hvalue).isKeyed.equal_comm
        (hlies key other partner hother hpartner).isKeyed]

/-- Values in regions apart are compared as the data that lie there. The
    induction is on one of the data, with the cells that hold it as the path:
    since none of them comes twice, the depth allowed is never used up. -/
theorem LiesAt.comparedAs (hlies : datum.LiesAt store p a) (hother : other.LiesAt store q b)
    {path : List Ref} (hbeneath : store.Beneath path datum)
    (hfuel : fuel + path.length = store.size + 1) : ComparedAs store fuel a b datum other := by
  have hagain := hother
  induction hlies generalizing other b path fuel with
  | scalar s =>
    obtain ⟨less, rfl, _⟩ := exists_less hbeneath hfuel
    cases hother with
    | scalar t => exact ⟨rfl, rfl⟩
    | _ => exact equalAt_scalar hagain.refusal?_eq s less
  | @list items values ref hregion hget hlength hparts ih =>
    obtain ⟨less, rfl, hless⟩ := exists_less hbeneath hfuel
    have hwhole := LiesAt.list hregion hget hlength hparts
    cases hother with
    | scalar t => exact (equalAt_scalar hwhole.refusal?_eq t less).symm
    | tuple _ hcell => exact comparedAs_cells hapart hwhole hagain hget hcell rfl rfl
    | mapping _ hcell => exact comparedAs_cells hapart hwhole hagain hget hcell rfl rfl
    | @list others bs place _ hcell hothers hlies =>
      have hcompared : ∀ x ∈ items.zip values, ∀ y ∈ others.zip bs,
          ComparedAs store less x.2 y.2 x.1 y.1 := by
        intro x hx y hy
        have hinside := hwhole.beneath hbeneath (sizeOf_lt_list (List.of_mem_zip hx).1)
        exact ih x hx (hlies y hy) hinside (hless ref) (hlies y hy)
      obtain ⟨hleft, hright⟩ := pairwise_parts hapart hlength hothers hparts hlies hcompared
      exact comparedAs_cells hapart hwhole hagain hget hcell
        (equalCells_list hlength hothers hleft) (equalCells_list hothers hlength hright)
  | @tuple items values ref hregion hget hlength hparts ih =>
    obtain ⟨less, rfl, hless⟩ := exists_less hbeneath hfuel
    have hwhole := LiesAt.tuple hregion hget hlength hparts
    cases hother with
    | scalar t => exact (equalAt_scalar hwhole.refusal?_eq t less).symm
    | list _ hcell => exact comparedAs_cells hapart hwhole hagain hget hcell rfl rfl
    | mapping _ hcell => exact comparedAs_cells hapart hwhole hagain hget hcell rfl rfl
    | @tuple others bs place _ hcell hothers hlies =>
      have hcompared : ∀ x ∈ items.zip values, ∀ y ∈ others.zip bs,
          ComparedAs store less x.2 y.2 x.1 y.1 := by
        intro x hx y hy
        have hinside := hwhole.beneath hbeneath (sizeOf_lt_tuple (List.of_mem_zip hx).1)
        exact ih x hx (hlies y hy) hinside (hless ref) (hlies y hy)
      obtain ⟨hleft, hright⟩ := pairwise_parts hapart hlength hothers hparts hlies hcompared
      exact comparedAs_cells hapart hwhole hagain hget hcell hleft hright
  | @mapping fields values ref hregion hget hkeys hnodup hparts ih =>
    obtain ⟨less, rfl, hless⟩ := exists_less hbeneath hfuel
    have hwhole := LiesAt.mapping hregion hget hkeys hnodup hparts
    cases hother with
    | scalar t => exact (equalAt_scalar hwhole.refusal?_eq t less).symm
    | list _ hcell => exact comparedAs_cells hapart hwhole hagain hget hcell rfl rfl
    | tuple _ hcell => exact comparedAs_cells hapart hwhole hagain hget hcell rfl rfl
    | @mapping others bs place _ hcell hothers _ hlies =>
      have hcompared : ∀ key item value other partner, (key, item) ∈ fields →
          (key, value) ∈ values → (key, other) ∈ others → (key, partner) ∈ bs →
          ComparedAs store less value partner item other := by
        intro key item value other partner hitem hvalue hother hpartner
        have hinside := hwhole.beneath hbeneath (sizeOf_lt_mapping hitem)
        have hlater := hlies key other partner hother hpartner
        exact ih key item value hitem hvalue hlater hinside (hless ref) hlater
      obtain ⟨hleft, hright⟩ := fieldwise_parts hapart hkeys hothers hparts hlies hcompared
      exact comparedAs_cells hapart hwhole hagain hget hcell
        (equalCells_mapping hkeys hothers hleft) (equalCells_mapping hothers hkeys hright)

/-- Whether a value agrees with another one is a question about the data that
    lie there. -/
theorem LiesAt.agrees_eq (hlies : datum.LiesAt store p a) (hother : other.LiesAt store q b) :
    store.agrees a b = .ok (datum.agrees other) ∧ store.agrees b a = .ok (other.agrees datum) := by
  have hboth : ∀ {a b : Value} {datum other : Datum}, Value.same a b = false →
      store.kind a = datum.kind → store.kind b = other.kind →
      store.equal a b = .ok (datum.equal other) →
      store.agrees a b = .ok (datum.agrees other) := by
    intro a b datum other hsame hleft hright hequal
    rw [Store.agrees, hsame, hleft, hright, hequal, Datum.agrees]
    cases datum.kind == .bool <;> cases other.kind == .bool <;> rfl
  obtain ⟨hsame, hback⟩ := hlies.not_same hapart hother
  have hnone : store.Beneath [] datum := ⟨List.nodup_nil, by simp, by simp⟩
  obtain ⟨hequal, hreverse⟩ := hlies.comparedAs hapart hother hnone rfl
  exact ⟨hboth hsame hlies.kind_eq hother.kind_eq hequal,
    hboth hback hother.kind_eq hlies.kind_eq hreverse⟩

end Parts

theorem agrees_of_kind (hkind : (store.kind a == .bool) ≠ (store.kind b == .bool)) :
    store.agrees a b = .ok false := by
  have hsame : Value.same a b = false := by
    rw [Bool.eq_false_iff]
    intro hsame
    cases a <;> cases b <;> simp only [Value.same, decide_eq_true_eq, Bool.false_eq_true] at hsame
    all_goals
      rw [hsame] at hkind
      exact hkind rfl
  rw [Store.agrees, hsame, if_neg (by decide), if_pos (bne_iff_ne.mpr hkind)]
  rfl

/-- Agreement of values is a partial equivalence. Among three values at which
    plain data lie without a cell in common, it is decided, symmetric and
    transitive; a copy agrees with the original, and so does any rearrangement of
    its fields, unless there is a NaN in it; and rearranged values agree with the
    same ones. Whatever the values are, a boolean agrees with booleans only. -/
theorem agrees_partial_equivalence {r : Ref → Prop} {third : Datum} {c : Value}
    (hfirst : datum.LiesAt store p a) (hsecond : other.LiesAt store q b)
    (hthird : third.LiesAt store r c) (hpq : ∀ ref, p ref → ¬ q ref) (hpr : ∀ ref, p ref → ¬ r ref)
    (hqr : ∀ ref, q ref → ¬ r ref) :
    (∃ verdict, store.agrees a b = .ok verdict ∧ store.agrees b a = .ok verdict) ∧
    (store.agrees a b = .ok true → store.agrees b c = .ok true → store.agrees a c = .ok true) ∧
    (other = datum → (store.agrees a b = .ok true ↔ ¬ datum.HasNan)) ∧
    (datum.Rearranges other →
      (store.agrees a b = .ok true ↔ ¬ datum.HasNan) ∧
      store.agrees a c = store.agrees b c ∧ store.agrees c a = store.agrees c b) ∧
    ∀ left right, (store.kind left == .bool) ≠ (store.kind right == .bool) →
      store.agrees left right = .ok false := by
  obtain ⟨hab, hba⟩ := hfirst.agrees_eq hpq hsecond
  obtain ⟨hac, hca⟩ := hfirst.agrees_eq hpr hthird
  obtain ⟨hbc, hcb⟩ := hsecond.agrees_eq hqr hthird
  have hcopy : datum.Rearranges other → (store.agrees a b = .ok true ↔ ¬ datum.HasNan) := by
    intro hsame
    rw [hab, Except.ok.injEq]
    exact hsame.agrees_iff hfirst.isKeyed hsecond.isKeyed
  refine ⟨⟨_, hab, ?_⟩, ?_, ?_, fun hsame => ⟨hcopy hsame, ?_, ?_⟩, fun _ _ => agrees_of_kind⟩
  · rw [hba, hfirst.isKeyed.agrees_comm hsecond.isKeyed]
  · rw [hab, hbc, hac, Except.ok.injEq, Except.ok.injEq, Except.ok.injEq]
    exact hfirst.isKeyed.agrees_trans hsecond.isKeyed hthird.isKeyed
  · rintro rfl
    exact hcopy hfirst.isKeyed.rearranges_refl
  · rw [hac, hbc, hsame.agrees_eq hfirst.isKeyed hsecond.isKeyed hthird.isKeyed]
  · rw [hca, hcb, hthird.isKeyed.agrees_comm hfirst.isKeyed,
      hthird.isKeyed.agrees_comm hsecond.isKeyed,
      hsame.agrees_eq hfirst.isKeyed hsecond.isKeyed hthird.isKeyed]

/-- A mapping, the same one with its fields in another order, and one that has
    other numbers of the same size in it. -/
def booking : Datum := .mapping [("tags", .list [.bool true, .text "a"]), ("size", .int 2)]

def rebooking : Datum := .mapping [("size", .int 2), ("tags", .list [.bool true, .text "a"])]

def counting : Datum :=
  .mapping [("tags", .list [.int 1, .text "a"]), ("size", .float (.finite 2))]

/-- The values that the three come to one after the other, and the store. -/
def booked : Value × Store := booking.build .empty

def rebooked : Value × Store := rebooking.build booked.2

def counted : Value × Store := counting.build rebooked.2

theorem booked_agrees :
    booking.Rearranges rebooking ∧ ¬ booking.HasNan ∧
    counted.2.agrees booked.1 rebooked.1 = .ok true ∧
    counted.2.agrees rebooked.1 counted.1 = .ok true ∧
    counted.2.agrees booked.1 counted.1 = .ok true ∧
    counted.2.agrees (.bool true) (.int 1) = .ok false := by
  have hlist : ∀ s t : Scalar, (Datum.list [.scalar s, .scalar t]).IsKeyed := fun s t =>
    .list (by simp [IsKeyed.scalar])
  have hbooking : booking.IsKeyed := .mapping (by decide) (by simp [hlist, IsKeyed.scalar])
  have hrebooking : rebooking.IsKeyed := .mapping (by decide) (by simp [hlist, IsKeyed.scalar])
  have hcounting : counting.IsKeyed := .mapping (by decide) (by simp [hlist, IsKeyed.scalar])
  have hmoved : booking.Rearranges rebooking := by
    refine .mapping (.swap _ _ _) fun key item other hitem hother => ?_
    have hsame : item = other := by
      simp only [List.mem_cons, Prod.mk.injEq, List.not_mem_nil, or_false] at hitem hother
      rcases hitem with ⟨rfl, rfl⟩ | ⟨rfl, rfl⟩
      · rcases hother with ⟨hkey, -⟩ | ⟨-, rfl⟩
        · exact absurd hkey (by decide)
        · rfl
      · rcases hother with ⟨-, rfl⟩ | ⟨hkey, -⟩
        · rfl
        · exact absurd hkey (by decide)
    have hkeyed : item.IsKeyed := by cases hbooking with | mapping _ hitems => exact hitems _ hitem
    exact hsame ▸ hkeyed.rearranges_refl
  have hnan : ¬ booking.HasNan := by
    simp [booking, not_hasNan_mapping, not_hasNan_list, hasNan_scalar, Scalar.content]
  have hsecond := extends_build rebooking booked.2
  have hthird := extends_build counting rebooked.2
  obtain ⟨-, htrans, -, hrearranged, hkinds⟩ := agrees_partial_equivalence
    (liesAt_build booking .empty hbooking (hsecond.trans hthird))
    (liesAt_build rebooking booked.2 hrebooking hthird)
    (liesAt_build counting rebooked.2 hcounting (Store.Extends.refl _))
    (fun _ hsince => hsince.apart (Nat.le_refl _))
    (fun _ hsince => hsince.apart (size_le_of_extends hsecond))
    (fun _ hsince => hsince.apart (Nat.le_refl _))
  have hfirst := (hrearranged hmoved).1.mpr hnan
  have hnext : counted.2.agrees rebooked.1 counted.1 = .ok true := by rfl
  exact ⟨hmoved, hnan, hfirst, hnext, htrans hfirst hnext, hkinds _ _ (by decide)⟩

end Bridge

end Datum

end Lineage
