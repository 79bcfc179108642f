import Lineage.Datum
import Mathlib.Algebra.GroupWithZero.Nat
import Mathlib.Data.List.Induction

namespace Lineage

variable {α : Type} {key other : String} {value : α} {fields : List (String × α)}

/-- What is left of fields written one after the other: each key where it was
    written first, with the value that was written last. -/
def lastWritten (fields : List (String × α)) : List (String × α) :=
  (fields.map Prod.fst).eraseDups.filterMap fun key =>
    (fields.reverse.lookup key).map fun value => (key, value)

/-- Sets fields one after the other. -/
def setFields (later fields : List (String × α)) : List (String × α) :=
  later.foldl (fun fields (field : String × α) => setField field.1 field.2 fields) fields

section Setting

theorem mem_keys_setField :
    other ∈ (setField key value fields).map Prod.fst ↔ other = key ∨ other ∈ fields.map Prod.fst := by
  induction fields with
  | nil => simp [setField]
  | cons field rest ih =>
    obtain ⟨k, v⟩ := field
    by_cases hkey : k = key
    · simp [setField, hkey]
    · simp only [setField, if_neg hkey, List.map_cons, List.mem_cons, ih]
      grind

theorem nodup_keys_setField (hnodup : (fields.map Prod.fst).Nodup) :
    ((setField key value fields).map Prod.fst).Nodup := by
  induction fields with
  | nil => simp [setField]
  | cons field rest ih =>
    obtain ⟨k, v⟩ := field
    rw [List.map_cons, List.nodup_cons] at hnodup
    by_cases hkey : k = key
    · rw [setField, if_pos hkey, List.map_cons, List.nodup_cons]
      exact hnodup
    · rw [setField, if_neg hkey, List.map_cons, List.nodup_cons, mem_keys_setField]
      exact ⟨fun h => h.elim hkey hnodup.1, ih hnodup.2⟩

theorem setField_setField_self {earlier : α} :
    setField key value (setField key earlier fields) = setField key value fields := by
  induction fields with
  | nil => simp [setField]
  | cons field rest ih =>
    obtain ⟨k, v⟩ := field
    by_cases hkey : k = key <;> simp [setField, hkey, ih]

/-- A key that is there keeps its place, so it may be set before or after
    another one. -/
theorem setField_comm {added : α} (hne : key ≠ other) (hmem : key ∈ fields.map Prod.fst) :
    setField key value (setField other added fields) =
      setField other added (setField key value fields) := by
  induction fields with
  | nil => simp at hmem
  | cons field rest ih =>
    obtain ⟨k, v⟩ := field
    by_cases hkey : k = key
    · subst hkey
      simp [setField, hne]
    · have hrest : key ∈ rest.map Prod.fst := by
        simpa [Ne.symm hkey] using hmem
      by_cases hother : k = other <;> simp [setField, hkey, hother, Ne.symm hne, ih hrest]

theorem setField_setFields {later : List (String × α)} (hmem : key ∈ fields.map Prod.fst)
    (hlater : key ∉ later.map Prod.fst) :
    setField key value (setFields later fields) = setFields later (setField key value fields) := by
  induction later generalizing fields with
  | nil => rfl
  | cons field rest ih =>
    obtain ⟨hne, hrest⟩ : key ≠ field.1 ∧ key ∉ rest.map Prod.fst := by simpa using hlater
    have hset : key ∈ (setField field.1 field.2 fields).map Prod.fst :=
      mem_keys_setField.mpr (Or.inr hmem)
    show setField key value (setFields rest (setField field.1 field.2 fields)) =
      setFields rest (setField field.1 field.2 (setField key value fields))
    rw [ih hset hrest, setField_comm hne hmem]

/-- Setting fields among which one was set is setting it last. -/
theorem setFields_setField {later : List (String × α)} (hnodup : (later.map Prod.fst).Nodup) :
    setFields (setField key value later) fields = setField key value (setFields later fields) := by
  induction later generalizing fields with
  | nil => rfl
  | cons field rest ih =>
    obtain ⟨k, v⟩ := field
    rw [List.map_cons, List.nodup_cons] at hnodup
    by_cases hkey : k = key
    · subst hkey
      have hset : k ∈ (setField k v fields).map Prod.fst := mem_keys_setField.mpr (Or.inl rfl)
      rw [setField, if_pos rfl]
      show setFields rest (setField k value fields) =
        setField k value (setFields rest (setField k v fields))
      rw [setField_setFields hset hnodup.1, setField_setField_self]
    · rw [setField, if_neg hkey]
      exact ih hnodup.2

theorem setFields_ne_nil {later : List (String × α)} (hfields : fields ≠ []) :
    setFields later fields ≠ [] := by
  induction later generalizing fields with
  | nil => exact hfields
  | cons field rest ih =>
    have hset : setField field.1 field.2 fields ≠ [] := by
      cases fields with
      | nil => simp [setField]
      | cons first others =>
        rw [setField]
        split <;> simp
    exact ih hset

end Setting

section Writing

/-- Fields that were settled among themselves first come to the same. -/
theorem setFields_setFields {later first : List (String × α)}
    (hnodup : (first.map Prod.fst).Nodup) :
    setFields (setFields later first) fields = setFields later (setFields first fields) := by
  induction later generalizing first with
  | nil => rfl
  | cons field rest ih =>
    show setFields (setFields rest (setField field.1 field.2 first)) fields =
      setFields rest (setField field.1 field.2 (setFields first fields))
    rw [ih (nodup_keys_setField hnodup), setFields_setField hnodup]

theorem nodup_eraseDups (keys : List String) : keys.eraseDups.Nodup := by
  induction h : keys.length using Nat.strongRecOn generalizing keys with
  | ind length ih =>
    cases keys with
    | nil => simp
    | cons key rest =>
      have hless : (rest.filter fun b => !b == key).length < length := by
        have := List.length_filter_le (fun b => !b == key) rest
        simp only [List.length_cons] at h
        omega
      rw [List.eraseDups_cons, List.nodup_cons]
      exact ⟨by simp [List.mem_eraseDups], ih _ hless _ rfl⟩

/-- The fields of some keys, each with the value that is found for it. -/
def fieldsOf (find : String → Option α) (keys : List String) : List (String × α) :=
  keys.filterMap fun key => (find key).map fun value => (key, value)

theorem fieldsOf_congr {find another : String → Option α} {keys : List String}
    (hsame : ∀ key ∈ keys, find key = another key) : fieldsOf find keys = fieldsOf another keys := by
  induction keys with
  | nil => rfl
  | cons first rest ih =>
    have hrest := ih fun key hkey => hsame key (List.mem_cons_of_mem first hkey)
    simp only [fieldsOf, List.filterMap_cons, hsame first List.mem_cons_self] at hrest ⊢
    rw [hrest]

theorem setField_fieldsOf_of_notMem {find : String → Option α} {keys : List String}
    (hnew : key ∉ keys) :
    setField key value (fieldsOf find keys) = fieldsOf find keys ++ [(key, value)] := by
  induction keys with
  | nil => rfl
  | cons first rest ih =>
    obtain ⟨hne, hrest⟩ : key ≠ first ∧ key ∉ rest := by simpa using hnew
    cases hfind : find first with
    | none => simpa [fieldsOf, hfind] using ih hrest
    | some found => simpa [fieldsOf, hfind, setField, Ne.symm hne] using ih hrest

theorem setField_fieldsOf_of_mem {find : String → Option α} {keys : List String}
    (hnodup : keys.Nodup) (hmem : key ∈ keys) (hfound : (find key).isSome) :
    setField key value (fieldsOf find keys) =
      fieldsOf (fun other => if other = key then some value else find other) keys := by
  induction keys with
  | nil => simp at hmem
  | cons first rest ih =>
    rw [List.nodup_cons] at hnodup
    by_cases hfirst : first = key
    · subst hfirst
      obtain ⟨found, hfind⟩ := Option.isSome_iff_exists.mp hfound
      have hothers : fieldsOf (fun other => if other = first then some value else find other) rest =
          fieldsOf find rest := by
        apply fieldsOf_congr
        intro other hother
        rw [if_neg]
        rintro rfl
        exact hnodup.1 hother
      simp only [fieldsOf] at hothers
      simp only [fieldsOf, List.filterMap_cons, hfind, Option.map_some, setField, if_true, hothers]
    · have hrest : key ∈ rest := by simpa [Ne.symm hfirst] using hmem
      have hset := ih hnodup.2 hrest
      cases hfind : find first with
      | none => simpa [fieldsOf, hfind, hfirst] using hset
      | some found => simpa [fieldsOf, hfind, hfirst, setField] using hset

theorem isSome_lookup_iff : (fields.reverse.lookup key).isSome ↔ key ∈ fields.map Prod.fst := by
  rw [← Option.ne_none_iff_isSome, Ne, List.lookup_eq_none_iff]
  simp

/-- Writing one more field keeps the place of its key. -/
theorem lastWritten_concat (fields : List (String × α)) (key : String) (value : α) :
    lastWritten (fields ++ [(key, value)]) = setField key value (lastWritten fields) := by
  have hlookup : (fun other => (fields ++ [(key, value)]).reverse.lookup other) =
      fun other => if other = key then some value else fields.reverse.lookup other := by
    funext other
    rw [List.reverse_append, List.reverse_singleton, List.singleton_append, List.lookup_cons]
    by_cases hother : other = key
    · simp [hother]
    · rw [beq_eq_false_iff_ne.mpr hother, if_neg hother]
  have hkeys : ((fields ++ [(key, value)]).map Prod.fst).eraseDups =
      (fields.map Prod.fst).eraseDups ++ ([key].removeAll (fields.map Prod.fst)).eraseDups := by
    rw [List.map_append, List.eraseDups_append]
    rfl
  show fieldsOf (fun other => (fields ++ [(key, value)]).reverse.lookup other) _ =
    setField key value (fieldsOf (fun other => fields.reverse.lookup other) _)
  rw [hlookup, hkeys]
  by_cases hmem : key ∈ fields.map Prod.fst
  · have hnone : [key].removeAll (fields.map Prod.fst) = [] := by
      simpa [List.removeAll] using hmem
    rw [hnone, setField_fieldsOf_of_mem (nodup_eraseDups _) (List.mem_eraseDups.mpr hmem)
      (isSome_lookup_iff.mpr hmem)]
    simp
  · have hone : [key].removeAll (fields.map Prod.fst) = [key] := by
      simpa [List.removeAll] using hmem
    have hnew : key ∉ (fields.map Prod.fst).eraseDups := fun h => hmem (List.mem_eraseDups.mp h)
    have hothers : fieldsOf (fun other => if other = key then some value else
        fields.reverse.lookup other) (fields.map Prod.fst).eraseDups =
          fieldsOf (fun other => fields.reverse.lookup other) (fields.map Prod.fst).eraseDups := by
      apply fieldsOf_congr
      intro other hother
      rw [if_neg]
      rintro rfl
      exact hnew hother
    rw [hone, setField_fieldsOf_of_notMem hnew, ← hothers]
    simp [fieldsOf, List.filterMap_append, List.eraseDups_cons]

/-- Setting fields one after the other leaves of each key the value written
    last, where the key was written first. -/
theorem setFields_lastWritten (later fields : List (String × α)) :
    setFields later (lastWritten fields) = lastWritten (fields ++ later) := by
  induction later generalizing fields with
  | nil => rw [List.append_nil]; rfl
  | cons field rest ih =>
    show setFields rest (setField field.1 field.2 (lastWritten fields)) = _
    rw [← lastWritten_concat, ih, List.append_assoc]
    rfl

theorem setFields_nil (fields : List (String × α)) : setFields fields [] = lastWritten fields :=
  setFields_lastWritten fields []

theorem setField_of_notMem (hnew : key ∉ fields.map Prod.fst) :
    setField key value fields = fields ++ [(key, value)] := by
  induction fields with
  | nil => rfl
  | cons field rest ih =>
    obtain ⟨hne, hrest⟩ : key ≠ field.1 ∧ key ∉ rest.map Prod.fst := by simpa using hnew
    rw [setField, if_neg (Ne.symm hne), ih hrest, List.cons_append]

/-- Fields with keys of their own are left as they were written. -/
theorem lastWritten_of_nodup (hnodup : (fields.map Prod.fst).Nodup) :
    lastWritten fields = fields := by
  induction fields using List.reverseRecOn with
  | nil => rfl
  | append_singleton earlier field ih =>
    rw [List.map_append, List.nodup_append] at hnodup
    have hnew : field.1 ∉ earlier.map Prod.fst := fun hmem =>
      hnodup.2.2 _ hmem _ (List.mem_singleton_self _) rfl
    rw [lastWritten_concat, ih hnodup.1, setField_of_notMem hnew]

theorem setField_map {β : Type} (f : α → β) (key : String) (value : α)
    (fields : List (String × α)) :
    setField key (f value) (fields.map fun field => (field.1, f field.2)) =
      (setField key value fields).map fun field => (field.1, f field.2) := by
  induction fields with
  | nil => rfl
  | cons field rest ih =>
    rw [List.map_cons, setField, setField, ih]
    split <;> rfl

theorem setFields_map {β : Type} (f : α → β) (later fields : List (String × α)) :
    setFields (later.map fun field => (field.1, f field.2))
        (fields.map fun field => (field.1, f field.2)) =
      (setFields later fields).map fun field => (field.1, f field.2) := by
  induction later generalizing fields with
  | nil => rfl
  | cons field rest ih =>
    have hrest := ih (setField field.1 field.2 fields)
    rw [← setField_map] at hrest
    exact hrest

theorem lastWritten_map {β : Type} (f : α → β) (fields : List (String × α)) :
    lastWritten (fields.map fun field => (field.1, f field.2)) =
      (lastWritten fields).map fun field => (field.1, f field.2) := by
  rw [← setFields_nil, ← setFields_nil]
  exact setFields_map f fields []

theorem mem_keys_lastWritten : key ∈ (lastWritten fields).map Prod.fst ↔ key ∈ fields.map Prod.fst := by
  induction fields using List.reverseRecOn with
  | nil => rfl
  | append_singleton earlier field ih =>
    rw [lastWritten_concat, mem_keys_setField, ih]
    simp [or_comm]

/-- A field is left if its value was the last to be written under its key. -/
theorem mem_lastWritten :
    (key, value) ∈ lastWritten fields ↔ fields.reverse.lookup key = some value := by
  have hkey : fields.reverse.lookup key = some value → key ∈ fields.map Prod.fst := by
    intro hlookup
    exact isSome_lookup_iff.mp (by simp [hlookup])
  simp only [lastWritten, List.mem_filterMap, List.mem_eraseDups, Option.map_eq_some_iff,
    Prod.mk.injEq]
  constructor
  · rintro ⟨_, _, _, hlookup, rfl, rfl⟩
    exact hlookup
  · intro hlookup
    exact ⟨key, hkey hlookup, value, hlookup, rfl, rfl⟩

end Writing

section Sums

variable {key : String} {n : Nat} {fields : List (String × Nat)}

theorem sum_setField_lt (hmem : key ∈ fields.map Prod.fst) (hpos : ∀ field ∈ fields, 0 < field.2) :
    ((setField key n fields).map Prod.snd).sum < (fields.map Prod.snd).sum + n := by
  induction fields with
  | nil => cases hmem
  | cons field rest ih =>
    obtain ⟨hfirst, hrest⟩ := List.forall_mem_cons.mp hpos
    rw [setField]
    split
    · simp only [List.map_cons, List.sum_cons]
      omega
    · next hother =>
      have hless := ih ((List.mem_cons.mp hmem).resolve_left fun h => hother h.symm) hrest
      simp only [List.map_cons, List.sum_cons]
      omega

theorem pos_setField (hn : 0 < n) (hpos : ∀ field ∈ fields, 0 < field.2) :
    ∀ field ∈ setField key n fields, 0 < field.2 := by
  induction fields with
  | nil => simpa [setField] using hn
  | cons field rest ih =>
    obtain ⟨hfirst, hrest⟩ := List.forall_mem_cons.mp hpos
    rw [setField]
    split
    · exact List.forall_mem_cons.mpr ⟨hn, hrest⟩
    · exact List.forall_mem_cons.mpr ⟨hfirst, ih hrest⟩

/-- What is left of positive numbers has the sum of them all only if every key was
    written once. -/
theorem sum_lastWritten (hpos : ∀ field ∈ fields, 0 < field.2) :
    ((lastWritten fields).map Prod.snd).sum = (fields.map Prod.snd).sum ↔
      (fields.map Prod.fst).Nodup := by
  refine ⟨fun hsum => ?_, fun hnodup => by rw [lastWritten_of_nodup hnodup]⟩
  suffices hall : (∀ field ∈ lastWritten fields, 0 < field.2) ∧
      ((lastWritten fields).map Prod.snd).sum ≤ (fields.map Prod.snd).sum ∧
      (((lastWritten fields).map Prod.snd).sum = (fields.map Prod.snd).sum →
        (fields.map Prod.fst).Nodup) from hall.2.2 hsum
  clear hsum
  induction fields using List.reverseRecOn with
  | nil => exact ⟨by simp [lastWritten], Nat.le_refl _, fun _ => .nil⟩
  | append_singleton earlier field ih =>
    obtain ⟨hearlier, hlast⟩ := List.forall_mem_append.mp hpos
    obtain ⟨hleft, hle, hnodup⟩ := ih hearlier
    have hn := hlast field (List.mem_singleton_self _)
    rw [lastWritten_concat]
    refine ⟨pos_setField hn hleft, ?_⟩
    simp only [List.map_append, List.map_singleton, List.sum_append, List.sum_singleton]
    by_cases hmem : field.1 ∈ earlier.map Prod.fst
    · have hless := sum_setField_lt (n := field.2) (mem_keys_lastWritten.mpr hmem) hleft
      exact ⟨by omega, fun h => by omega⟩
    · rw [setField_of_notMem fun h => hmem (mem_keys_lastWritten.mp h)]
      simp only [List.map_append, List.map_singleton, List.sum_append, List.sum_singleton]
      refine ⟨by omega, fun h => ?_⟩
      refine List.nodup_append.mpr ⟨hnodup (by omega), by simp, ?_⟩
      rintro key hkey _ hother rfl
      exact hmem (List.mem_singleton.mp hother ▸ hkey)

end Sums

end Lineage
