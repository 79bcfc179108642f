import Lineage.Children
import Lineage.Store.Build
import Lineage.Store.Equal
import Mathlib.Data.List.Perm.Subperm

namespace Lineage

/-- What stood at an address still does. -/
def Store.Extends (earlier later : Store) : Prop :=
  ∀ ref cell, earlier.get? ref = some cell → later.get? ref = some cell

/-- A value that is data as far as it can be told without its parts: no
    function, no dangling address and nothing that refuses comparison. -/
def Store.IsData (store : Store) : Value → Prop
  | .scalar _ => True
  | .function _ => False
  | .cell ref => ∃ cell, store.get? ref = some cell ∧ ∀ category, cell ≠ .incomparable category

namespace Store

variable {store earlier later : Store} {value : Value}

theorem address_lt_of_get? {ref : Ref} {cell : Cell} (hget : store.get? ref = some cell) :
    ref.address < store.size := by
  obtain ⟨hlt, _⟩ := Array.getElem?_eq_some_iff.mp hget
  exact hlt

/-- There are no more different addresses than compound values. -/
theorem length_le_size {refs : List Ref} (hnodup : refs.Nodup)
    (hheld : ∀ ref ∈ refs, ref.address < store.size) : refs.length ≤ store.size := by
  have haddresses : (refs.map Ref.address).Nodup := by
    apply hnodup.map
    intro ref other heq
    cases ref
    cases other
    simpa using heq
  have hbelow : refs.map Ref.address ⊆ List.range store.size := by
    intro address hmem
    obtain ⟨ref, href, rfl⟩ := List.mem_map.mp hmem
    exact List.mem_range.mpr (hheld ref href)
  simpa using (haddresses.subperm hbelow).length_le

theorem Extends.refl (store : Store) : store.Extends store :=
  fun _ _ hget => hget

theorem Extends.trans {middle : Store} (hfirst : earlier.Extends middle)
    (hsecond : middle.Extends later) : earlier.Extends later :=
  fun ref cell hget => hsecond ref cell (hfirst ref cell hget)

theorem extends_alloc (store : Store) (cell : Cell) : store.Extends (store.alloc cell).2 := by
  intro ref found hget
  rw [get?_alloc_of_lt store cell ref (address_lt_of_get? hget), hget]

theorem IsData.extend (hdata : earlier.IsData value) (hextends : earlier.Extends later) :
    later.IsData value := by
  cases value with
  | scalar s => trivial
  | function f => exact hdata
  | cell ref =>
    obtain ⟨cell, hget, hcomparable⟩ := hdata
    exact ⟨cell, hextends ref cell hget, hcomparable⟩

theorem IsData.refusal?_eq_none (hdata : store.IsData value) : store.refusal? value = none := by
  cases value with
  | scalar s => rfl
  | function f => rfl
  | cell ref =>
    obtain ⟨cell, hget, hcomparable⟩ := hdata
    have hcell : store.cell? (.cell ref) = some cell := hget
    rw [refusal?, hcell]
    split
    · next category hcategory => exact (hcomparable category (Option.some.inj hcategory)).elim
    · rfl

/-- Data keeps its properties while the store grows. -/
theorem IsData.property?_eq (hdata : earlier.IsData value) (hextends : earlier.Extends later)
    (key : String) : later.property? value key = earlier.property? value key := by
  cases value with
  | scalar s => cases s <;> rfl
  | function f => rfl
  | cell ref =>
    obtain ⟨cell, hget, _⟩ := hdata
    show (later.get? ref).bind _ = (earlier.get? ref).bind _
    rw [hget, hextends ref cell hget]

section Reading

variable (hdata : earlier.IsData value) (hextends : earlier.Extends later)

include hdata hextends

theorem IsData.cell?_eq : later.cell? value = earlier.cell? value := by
  cases value with
  | scalar s => rfl
  | function f => rfl
  | cell ref =>
    obtain ⟨cell, hget, _⟩ := hdata
    show later.get? ref = earlier.get? ref
    rw [hget, hextends ref cell hget]

theorem IsData.kind_eq : later.kind value = earlier.kind value := by
  have hcell := hdata.cell?_eq hextends
  cases value with
  | scalar s => rfl
  | function f => rfl
  | cell ref =>
    show ((later.cell? (.cell ref)).map Cell.kind).getD .null = _
    rw [hcell]
    rfl

theorem IsData.members?_eq : later.members? value = earlier.members? value := by
  have hcell := hdata.cell?_eq hextends
  cases value with
  | scalar s => cases s <;> rfl
  | function f => rfl
  | cell ref => simp only [members?, hcell]

theorem IsData.lengthOf_eq : later.lengthOf value = earlier.lengthOf value := by
  simp only [lengthOf, hdata.members?_eq hextends, hdata.cell?_eq hextends, hdata.kind_eq hextends]

/-- Data keeps its members while the store grows. -/
theorem IsData.childAt_eq (place : Int) :
    later.childAt value (.int place) = earlier.childAt value (.int place) := by
  have hcursor : later.kind (.int place) = earlier.kind (.int place) := rfl
  simp only [childAt, isFromStart, memberAt, Value.position?, hdata.members?_eq hextends,
    hdata.cell?_eq hextends, hdata.lengthOf_eq hextends, hdata.kind_eq hextends, hcursor]

theorem IsData.children_eq : later.children value = earlier.children value := by
  rw [children, children, hdata.property?_eq hextends]

end Reading

end Store

section Build

theorem mem_of_lookup_eq_some {α : Type} {fields : List (String × α)} {key : String} {value : α}
    (hlookup : fields.lookup key = some value) : (key, value) ∈ fields := by
  obtain ⟨before, after, rfl, _⟩ := List.lookup_eq_some_iff.mp hlookup
  simp

mutual

/-- Plain data is put beside what the store holds already. -/
theorem Datum.extends_build (datum : Datum) (store : Store) :
    store.Extends (datum.build store).2 := by
  cases datum with
  | scalar s => exact Store.Extends.refl store
  | list items => exact (extends_buildItems items store).trans (Store.extends_alloc _ _)
  | tuple items => exact (extends_buildItems items store).trans (Store.extends_alloc _ _)
  | mapping fields => exact (extends_buildFields fields store).trans (Store.extends_alloc _ _)

theorem Datum.extends_buildItems (items : List Datum) (store : Store) :
    store.Extends (Datum.buildItems items store).2 := by
  cases items with
  | nil => exact Store.Extends.refl store
  | cons item rest => exact (extends_build item store).trans (extends_buildItems rest _)

theorem Datum.extends_buildFields (fields : List (String × Datum)) (store : Store) :
    store.Extends (Datum.buildFields fields store).2 := by
  cases fields with
  | nil => exact Store.Extends.refl store
  | cons field rest => exact (extends_build field.2 store).trans (extends_buildFields rest _)

end

theorem Datum.isData_build (datum : Datum) (store : Store) :
    (datum.build store).2.IsData (datum.build store).1 := by
  cases datum with
  | scalar s => trivial
  | list items => exact ⟨_, Store.get?_alloc_self _ _, by simp⟩
  | tuple items => exact ⟨_, Store.get?_alloc_self _ _, by simp⟩
  | mapping fields => exact ⟨_, Store.get?_alloc_self _ _, by simp⟩

theorem Datum.isData_of_mem_buildFields {fields : List (String × Datum)} {store : Store}
    {key : String} {value : Value} (hmem : (key, value) ∈ (Datum.buildFields fields store).1) :
    (Datum.buildFields fields store).2.IsData value := by
  induction fields generalizing store with
  | nil => cases hmem
  | cons field rest ih =>
    rcases List.mem_cons.mp hmem with hfirst | hrest
    · obtain ⟨rfl, rfl⟩ := Prod.mk.inj hfirst
      exact (Datum.isData_build field.2 store).extend (Datum.extends_buildFields rest _)
    · exact ih hrest

/-- The properties of plain data are plain data. -/
theorem Datum.isData_of_property? {datum : Datum} {store : Store} {key : String} {value : Value}
    (hproperty : (datum.build store).2.property? (datum.build store).1 key = some value) :
    (datum.build store).2.IsData value := by
  have hcell : ∀ {earlier : Store} {cell : Cell},
      (earlier.alloc cell).2.property? (earlier.alloc cell).1 key = cell.property? key := by
    intro earlier cell
    show ((earlier.alloc cell).2.get? ⟨earlier.size⟩).bind _ = _
    rw [Store.get?_alloc_self]
    rfl
  cases datum with
  | scalar s =>
    obtain ⟨part, rfl⟩ := s.properties_scalar _ (mem_of_lookup_eq_some hproperty)
    trivial
  | list items => rw [Datum.build, hcell] at hproperty; cases hproperty
  | tuple items => rw [Datum.build, hcell] at hproperty; cases hproperty
  | mapping fields =>
    rw [Datum.build, hcell] at hproperty
    have hmem := Datum.isData_of_mem_buildFields (mem_of_lookup_eq_some hproperty)
    exact hmem.extend (Store.extends_alloc _ _)

end Build

end Lineage
