import Lineage.Check.Test
import Lineage.Store.Build
import Mathlib.Data.List.Forall2

namespace Lineage

variable {ties : Ref → Ref → Prop}

/-- Two values that look alike: the same scalar or function, or compound values
    at addresses that are tied to each other. -/
inductive Value.Tied (ties : Ref → Ref → Prop) : Value → Value → Prop where
  | scalar (s : Scalar) : Value.Tied ties (.scalar s) (.scalar s)
  | function (f : Nat) : Value.Tied ties (.function f) (.function f)
  | cell {ref other : Ref} (hties : ties ref other) : Value.Tied ties (.cell ref) (.cell other)

/-- Two fields or entries under one key whose values look alike. -/
def FieldsTied {κ : Type} (ties : Ref → Ref → Prop) (field other : κ × Value) : Prop :=
  field.1 = other.1 ∧ field.2.Tied ties other.2

theorem fieldsTied_of_tied {κ : Type} {value other : Value} (key : κ) (htied : value.Tied ties other) :
    FieldsTied ties (key, value) (key, other) :=
  ⟨rfl, htied⟩

/-- Two cells of one form whose parts look alike. -/
inductive Cell.Tied (ties : Ref → Ref → Prop) : Cell → Cell → Prop where
  | list {items others : List Value} (hitems : List.Forall₂ (Value.Tied ties) items others) :
      Cell.Tied ties (.list items) (.list others)
  | tuple {items others : List Value} (hitems : List.Forall₂ (Value.Tied ties) items others) :
      Cell.Tied ties (.tuple items) (.tuple others)
  | mapping {fields others : Fields} (hfields : List.Forall₂ (FieldsTied ties) fields others) :
      Cell.Tied ties (.mapping fields) (.mapping others)
  | table {entries others : Entries} (hentries : List.Forall₂ (FieldsTied ties) entries others) :
      Cell.Tied ties (.table entries) (.table others)
  | element {fields others : Fields} (hfields : List.Forall₂ (FieldsTied ties) fields others) :
      Cell.Tied ties (.element fields) (.element others)
  | directive {directive other : Directive} (haction : directive.action.Tied ties other.action)
      (hindex : directive.index.Tied ties other.index) :
      Cell.Tied ties (.directive directive) (.directive other)
  | check (check : Check) : Cell.Tied ties (.check check) (.check check)
  | incomparable (category : Category) :
      Cell.Tied ties (.incomparable category) (.incomparable category)

/-- Addresses of two stores that are tied in pairs, with cells that look alike. -/
structure Store.Ties (ties : Ref → Ref → Prop) (first second : Store) : Prop where
  pairs : ∀ {ref other ref' other'}, ties ref other → ties ref' other' →
    (ref = ref' ↔ other = other')
  cells : ∀ {ref other}, ties ref other →
    Option.Rel (Cell.Tied ties) (first.get? ref) (second.get? other)

section Mono

variable {more : Ref → Ref → Prop} (hmore : ∀ {ref other}, ties ref other → more ref other)

include hmore

theorem Value.Tied.mono {value other : Value} (htied : value.Tied ties other) :
    value.Tied more other := by
  cases htied with
  | scalar s => exact .scalar s
  | function f => exact .function f
  | cell hties => exact .cell (hmore hties)

theorem Cell.Tied.mono {cell other : Cell} (htied : cell.Tied ties other) :
    cell.Tied more other := by
  have hfield : ∀ {κ : Type} {field other : κ × Value}, FieldsTied ties field other →
      FieldsTied more field other := fun hboth => ⟨hboth.1, hboth.2.mono hmore⟩
  cases htied with
  | list hitems => exact .list (hitems.imp fun _ _ hitem => hitem.mono hmore)
  | tuple hitems => exact .tuple (hitems.imp fun _ _ hitem => hitem.mono hmore)
  | mapping hfields => exact .mapping (hfields.imp fun _ _ => hfield)
  | table hentries => exact .table (hentries.imp fun _ _ => hfield)
  | element hfields => exact .element (hfields.imp fun _ _ => hfield)
  | directive haction hindex => exact .directive (haction.mono hmore) (hindex.mono hmore)
  | check check => exact .check check
  | incomparable category => exact .incomparable category

end Mono

/-- The same outcome, unless the first one ran out of depth. -/
def Deepens {α : Type} (result other : Except Fault α) : Prop :=
  result = .error (.of (.tooDeep .comparing)) ∨ other = result

section Depth

variable {α β : Type}

theorem Deepens.refl (result : Except Fault α) : Deepens result result :=
  .inr rfl

theorem Deepens.bind {result other : Except Fault α} {next rest : α → Except Fault β}
    (hfirst : Deepens result other) (hnext : ∀ a, Deepens (next a) (rest a)) :
    Deepens (result >>= next) (other >>= rest) := by
  rcases hfirst with rfl | rfl
  · exact .inl rfl
  · cases other with
    | ok a => exact hnext a
    | error fault => exact .inr rfl

/-- One step of a comparison from the left: a difference ends it. -/
theorem Deepens.guard {verdict other : Except Fault Bool} {rest rest' : Except Fault Bool}
    (hverdict : Deepens verdict other) (hrest : Deepens rest rest') :
    Deepens (verdict >>= fun equal => if equal then rest else pure false)
      (other >>= fun equal => if equal then rest' else pure false) := by
  apply hverdict.bind
  intro equal
  cases equal with
  | true => exact hrest
  | false => exact .refl _

end Depth

section Parts

variable {f g : Value → Value → Except Fault Bool}
  (hparts : ∀ {a a' b b'}, a.Tied ties a' → b.Tied ties b' → Deepens (f a b) (g a' b'))

include hparts

theorem pairwise_deepens {items others items' others' : List Value}
    (hitems : List.Forall₂ (Value.Tied ties) items items')
    (hothers : List.Forall₂ (Value.Tied ties) others others') :
    Deepens (pairwise f items others) (pairwise g items' others') := by
  induction hitems generalizing others others' with
  | nil => cases hothers <;> exact .refl _
  | cons hitem _ ih =>
    cases hothers with
    | nil => exact .refl _
    | cons hother hrest =>
      rw [pairwise, pairwise]
      exact (hparts hitem hother).guard (ih hrest)

theorem fieldwise_deepens {fields others fields' others' : Fields}
    (hothers : ∀ key, Option.Rel (Value.Tied ties) (others.lookup key) (others'.lookup key))
    (hfields : List.Forall₂ (FieldsTied ties) fields fields') :
    Deepens (fieldwise f others fields) (fieldwise g others' fields') := by
  induction hfields with
  | nil => exact .refl _
  | @cons field field' _ _ hfield _ ih =>
    obtain ⟨key, value⟩ := field
    obtain ⟨_, value'⟩ := field'
    obtain ⟨rfl, hvalue⟩ := hfield
    rw [fieldwise, fieldwise]
    have hother := hothers key
    generalize others.lookup key = found at hother ⊢
    generalize others'.lookup key = found' at hother ⊢
    cases hother with
    | none => exact .refl _
    | some hother => exact (hparts hother hvalue).guard ih

theorem entrywise_deepens {entries others entries' others' : Entries}
    (hothers : ∀ key, Option.Rel (Value.Tied ties) (others.value? key) (others'.value? key))
    (hentries : List.Forall₂ (FieldsTied ties) entries entries') :
    Deepens (entrywise f others entries) (entrywise g others' entries') := by
  induction hentries with
  | nil => exact .refl _
  | @cons entry entry' _ _ hentry _ ih =>
    obtain ⟨key, value⟩ := entry
    obtain ⟨_, value'⟩ := entry'
    obtain ⟨rfl, hvalue⟩ := hentry
    rw [entrywise, entrywise]
    have hother := hothers key
    generalize others.value? key = found at hother ⊢
    generalize others'.value? key = found' at hother ⊢
    cases hother with
    | none => exact .refl _
    | some hother => exact (hparts hother hvalue).guard ih

end Parts

/-- Tied entries have tied values under every key. -/
theorem value?_tied {entries others : Entries}
    (hentries : List.Forall₂ (FieldsTied ties) entries others) (key : Scalar) :
    Option.Rel (Value.Tied ties) (entries.value? key) (others.value? key) := by
  induction hentries with
  | nil => exact .none
  | @cons entry other _ _ hentry _ ih =>
    obtain ⟨name, value⟩ := entry
    obtain ⟨_, value'⟩ := other
    obtain ⟨rfl, hvalue⟩ := hentry
    simp only [Entries.value?, List.find?_cons]
    split
    · exact .some hvalue
    · exact ih

theorem entries_tied {fields others : Fields}
    (hfields : List.Forall₂ (FieldsTied ties) fields others) :
    List.Forall₂ (FieldsTied ties) fields.entries others.entries := by
  rw [Fields.entries, Fields.entries, List.forall₂_map_left_iff, List.forall₂_map_right_iff]
  exact hfields.imp fun _ _ hfield => ⟨congrArg Scalar.text hfield.1, hfield.2⟩

theorem lookup_tied {fields others : Fields} (hfields : List.Forall₂ (FieldsTied ties) fields others)
    (key : String) : Option.Rel (Value.Tied ties) (fields.lookup key) (others.lookup key) := by
  induction hfields with
  | nil => exact .none
  | @cons field other _ _ hfield _ ih =>
    obtain ⟨name, value⟩ := field
    obtain ⟨_, value'⟩ := other
    obtain ⟨rfl, hvalue⟩ := hfield
    simp only [List.lookup_cons]
    split
    · exact .some hvalue
    · exact ih

theorem equalTables_deepens {f g : Value → Value → Except Fault Bool}
    (hparts : ∀ {a a' b b'}, a.Tied ties a' → b.Tied ties b' → Deepens (f a b) (g a' b'))
    {entries others entries' others' : Entries}
    (hentries : List.Forall₂ (FieldsTied ties) entries entries')
    (hothers : List.Forall₂ (FieldsTied ties) others others') :
    Deepens (equalTables f entries others) (equalTables g entries' others') := by
  simp only [equalTables, hentries.length_eq, hothers.length_eq]
  split
  · exact entrywise_deepens hparts (value?_tied hothers) hentries
  · exact .refl _

theorem scalars_tied {fields : Fields} (hscalars : ∀ field ∈ fields, ∃ part, field.2 = .scalar part)
    (key : String) : Option.Rel (Value.Tied ties) (fields.lookup key) (fields.lookup key) := by
  refine lookup_tied (List.forall₂_same.mpr fun field hfield => ?_) key
  obtain ⟨name, value⟩ := field
  obtain ⟨part, rfl⟩ := hscalars _ hfield
  exact fieldsTied_of_tied name (.scalar part)

namespace Store

theorem equalCells_deepens {f g : Value → Value → Except Fault Bool}
    (hparts : ∀ {a a' b b'}, a.Tied ties a' → b.Tied ties b' → Deepens (f a b) (g a' b'))
    {cell other cell' other' : Cell} (hcell : cell.Tied ties cell')
    (hother : other.Tied ties other') :
    Deepens (equalCells f cell other) (equalCells g cell' other') := by
  cases hcell with
  | list hitems =>
    cases hother with
    | list hothers =>
      simp only [equalCells, hitems.length_eq, hothers.length_eq]
      split
      · exact pairwise_deepens hparts hitems hothers
      · exact .refl _
    | _ => exact .refl _
  | tuple hitems =>
    cases hother with
    | tuple hothers => exact pairwise_deepens hparts hitems hothers
    | _ => exact .refl _
  | mapping hfields =>
    cases hother with
    | mapping hothers =>
      simp only [equalCells, hfields.length_eq, hothers.length_eq]
      split
      · exact fieldwise_deepens hparts (lookup_tied hothers) hfields
      · exact .refl _
    | table hothers => exact equalTables_deepens hparts (entries_tied hfields) hothers
    | _ => exact .refl _
  | table hentries =>
    cases hother with
    | mapping hothers => exact equalTables_deepens hparts hentries (entries_tied hothers)
    | table hothers => exact equalTables_deepens hparts hentries hothers
    | _ => exact .refl _
  | directive haction hindex =>
    cases hother with
    | directive haction' hindex' =>
      exact pairwise_deepens hparts (.cons haction (.cons hindex .nil))
        (.cons haction' (.cons hindex' .nil))
    | _ => exact .refl _
  | element hfields => cases hother <;> exact .refl _
  | check c => cases hother <;> exact .refl _
  | incomparable category => cases hother <;> exact .refl _

namespace Ties

variable {first second : Store} (hties : Ties ties first second) {value other value' other' : Value}

include hties

theorem cell? (hvalue : value.Tied ties value') :
    Option.Rel (Cell.Tied ties) (first.cell? value) (second.cell? value') := by
  cases hvalue with
  | scalar s => exact .none
  | function f => exact .none
  | cell htied => exact hties.cells htied

theorem refusal?_eq (hvalue : value.Tied ties value') :
    second.refusal? value' = first.refusal? value := by
  have hcell := hties.cell? hvalue
  rw [refusal?, refusal?]
  generalize first.cell? value = cell at hcell ⊢
  generalize second.cell? value' = cell' at hcell ⊢
  cases hcell with
  | none => rfl
  | some hcell => cases hcell <;> rfl

theorem kind_eq (hvalue : value.Tied ties value') : second.kind value' = first.kind value := by
  cases hvalue with
  | scalar s => rfl
  | function f => rfl
  | @cell ref ref' htied =>
    have hcell := hties.cells htied
    rw [kind, kind]
    generalize first.get? ref = cell at hcell ⊢
    generalize second.get? ref' = cell' at hcell ⊢
    cases hcell with
    | none => rfl
    | some hcell => cases hcell <;> rfl

theorem same_eq (hvalue : value.Tied ties value') (hother : other.Tied ties other') :
    Value.same value' other' = Value.same value other := by
  cases hvalue with
  | scalar s => cases hother <;> rfl
  | function f => cases hother <;> rfl
  | cell htied =>
    cases hother with
    | scalar s => rfl
    | function f => rfl
    | cell htied' => simp only [Value.same, hties.pairs htied htied']

/-- Values that look alike have the same properties. -/
theorem property?_tied (hvalue : value.Tied ties value') (key : String) :
    Option.Rel (Value.Tied ties) (first.property? value key) (second.property? value' key) := by
  cases hvalue with
  | function f => exact .none
  | scalar s => exact scalars_tied s.properties_scalar key
  | @cell ref ref' htied =>
    have hcell := hties.cells htied
    change Option.Rel _ ((first.get? ref).bind _) ((second.get? ref').bind _)
    generalize first.get? ref = cell at hcell ⊢
    generalize second.get? ref' = cell' at hcell ⊢
    cases hcell with
    | none => exact .none
    | some hcell =>
      cases hcell with
      | mapping hfields => exact lookup_tied hfields key
      | table hentries => exact value?_tied hentries (.text key)
      | element hfields =>
        have hlookup := lookup_tied hfields key
        simp only [Option.bind_some, Cell.property?]
        generalize List.lookup key _ = own at hlookup ⊢
        generalize List.lookup key _ = own' at hlookup ⊢
        cases hlookup with
        | none => exact scalars_tied (by simp [Cell.inherited]) key
        | some hvalue => exact .some hvalue
      | directive haction hindex =>
        exact lookup_tied (.cons (fieldsTied_of_tied "action" haction)
          (.cons (fieldsTied_of_tied "index" hindex) .nil)) key
      | check c =>
        cases c with
        | typeName name => exact lookup_tied (.cons (fieldsTied_of_tied "name" (.scalar name)) .nil) key
        | _ => exact .none
      | _ => exact .none

/-- Values that look alike have the same under every key, or it cannot be looked
    up in either. -/
theorem valueAt?_tied (hvalue : value.Tied ties value') (key : Scalar) :
    (∃ fault, first.valueAt? value key = .error fault ∧ second.valueAt? value' key = .error fault) ∨
      ∃ found found', first.valueAt? value key = .ok found ∧ second.valueAt? value' key = .ok found' ∧
        Option.Rel (Value.Tied ties) found found' := by
  unfold valueAt?
  cases key.text? with
  | some name => exact .inr ⟨_, _, rfl, rfl, hties.property?_tied hvalue name⟩
  | none =>
    have hcell := hties.cell? hvalue
    generalize first.cell? value = cell at hcell ⊢
    generalize second.cell? value' = cell' at hcell ⊢
    cases hcell with
    | none => exact .inl ⟨_, rfl, rfl⟩
    | some hcell =>
      cases hcell with
      | mapping _ => exact .inr ⟨_, _, rfl, rfl, .none⟩
      | table hentries => exact .inr ⟨_, _, rfl, rfl, value?_tied hentries key⟩
      | _ => exact .inl ⟨_, rfl, rfl⟩

theorem typeOf_tied (hvalue : value.Tied ties value') :
    (first.typeOf value).Tied ties (second.typeOf value') := by
  have hproperty := hties.property?_tied hvalue "type"
  rw [typeOf, typeOf]
  generalize first.property? value "type" = type at hproperty ⊢
  generalize second.property? value' "type" = type' at hproperty ⊢
  cases hproperty with
  | none => exact .scalar .null
  | some htype => exact htype

/-- Values that look alike are compared alike, with more depth to go. -/
theorem equalAt_deepens {fuel more : Nat} (hmore : fuel ≤ more) (hvalue : value.Tied ties value')
    (hother : other.Tied ties other') :
    Deepens (first.equalAt fuel value other) (second.equalAt more value' other') := by
  induction fuel generalizing more value other value' other' with
  | zero => exact .inl rfl
  | succ fuel ih =>
    obtain ⟨more, rfl⟩ : ∃ less, more = less + 1 := ⟨more - 1, by omega⟩
    unfold equalAt
    rw [hties.refusal?_eq hvalue, hties.refusal?_eq hother]
    split
    · exact .refl _
    · exact .refl _
    · cases hvalue with
      | scalar s => cases hother <;> exact .refl _
      | function f => cases hother <;> exact .refl _
      | @cell ref ref' htied =>
        cases hother with
        | scalar s => exact .refl _
        | function f => exact .refl _
        | @cell query query' htied' =>
          have hpairs := hties.pairs htied htied'
          simp only [hpairs]
          split
          · exact .refl _
          · have hcell := hties.cells htied
            have hcell' := hties.cells htied'
            generalize first.get? ref = cell at hcell ⊢
            generalize second.get? ref' = copy at hcell ⊢
            generalize first.get? query = cell' at hcell' ⊢
            generalize second.get? query' = copy' at hcell' ⊢
            cases hcell with
            | none => cases hcell' <;> exact .refl _
            | some hcell =>
              cases hcell' with
              | none => exact .refl _
              | some hcell' =>
                apply equalCells_deepens _ hcell hcell'
                intro a a' b b' ha hb
                simp only [hties.same_eq ha hb]
                split
                · exact .refl _
                · exact ih (by omega) ha hb

section Checks

variable (hmore : first.size ≤ second.size)

include hmore

theorem equal_deepens (hvalue : value.Tied ties value') (hother : other.Tied ties other') :
    Deepens (first.equal value other) (second.equal value' other') :=
  hties.equalAt_deepens (by omega) hvalue hother

theorem agrees_deepens (hvalue : value.Tied ties value') (hother : other.Tied ties other') :
    Deepens (first.agrees value other) (second.agrees value' other') := by
  have hequal := hties.equal_deepens hmore hvalue hother
  rw [agrees, agrees, hties.same_eq hvalue hother, hties.kind_eq hvalue, hties.kind_eq hother]
  split
  · exact .refl _
  · split
    · exact .refl _
    · rcases hequal with hdeep | hsame
      · rw [hdeep]
        exact .inl rfl
      · rw [hsame]
        exact .refl _

/-- A pattern asks the same of nodes that look alike. -/
theorem hasEntries_deepens (hvalue : value.Tied ties value') {entries entries' : Entries}
    (hentries : List.Forall₂ (FieldsTied ties) entries entries') :
    Deepens (Check.hasEntries first value entries) (Check.hasEntries second value' entries') := by
  induction hentries with
  | nil => exact .refl _
  | @cons entry entry' _ _ hentry _ ih =>
    obtain ⟨key, expected⟩ := entry
    obtain ⟨_, expected'⟩ := entry'
    obtain ⟨rfl, hexpected⟩ := hentry
    rw [Check.hasEntries, Check.hasEntries]
    rcases hties.valueAt?_tied hvalue key with ⟨fault, hfirst, hsecond⟩ | ⟨actual, actual', hfirst, hsecond, hactual⟩
    · rw [hfirst, hsecond]
      exact .refl _
    · rw [hfirst, hsecond]
      cases hactual with
      | none => exact .refl _
      | some hactual => exact (hties.agrees_deepens hmore hactual hexpected).guard ih

theorem hasAll_deepens (hvalue : value.Tied ties value') {fields fields' : Fields}
    (hfields : List.Forall₂ (FieldsTied ties) fields fields') :
    Deepens (Check.hasAll first value fields) (Check.hasAll second value' fields') :=
  hties.hasEntries_deepens hmore hvalue (entries_tied hfields)

end Checks

end Ties

end Store

end Lineage
