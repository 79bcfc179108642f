import Lineage.Proofs.Command.Tallies
import Lineage.Proofs.Config.Overrides
import Mathlib.Data.List.Forall2
import Mathlib.Data.List.Perm.Subperm

namespace Lineage

namespace Datum

mutual

/-- Equality of plain data: scalars with equal contents, sequences of one kind
    place by place, and mappings with equal values under the same keys. -/
def equal : Datum → Datum → Bool
  | scalar s, scalar t => s.equal t
  | list items, list others => equalItems items others
  | tuple items, tuple others => equalItems items others
  | mapping fields, mapping others => fields.length == others.length && equalFields fields others
  | _, _ => false

/-- Equality of sequences, place by place. -/
def equalItems : List Datum → List Datum → Bool
  | [], [] => true
  | item :: rest, other :: others => item.equal other && equalItems rest others
  | _, _ => false

/-- Whether every field has an equal one of the same name among the others. -/
def equalFields : List (String × Datum) → List (String × Datum) → Bool
  | [], _ => true
  | (key, item) :: rest, others =>
    (others.lookup key).any (fun other => item.equal other) && equalFields rest others

end

/-- Equality as patterns ask for it: a boolean agrees with booleans only. Inside
    of containers it counts as a number. -/
def agrees (datum other : Datum) : Bool :=
  (datum.kind == .bool) == (other.kind == .bool) && datum.equal other

/-- Mappings have keys of their own, also those inside. -/
inductive IsKeyed : Datum → Prop where
  | scalar (s : Scalar) : IsKeyed (.scalar s)
  | list {items : List Datum} (hitems : ∀ item ∈ items, IsKeyed item) : IsKeyed (.list items)
  | tuple {items : List Datum} (hitems : ∀ item ∈ items, IsKeyed item) : IsKeyed (.tuple items)
  | mapping {fields : List (String × Datum)} (hnodup : (fields.map Prod.fst).Nodup)
      (hitems : ∀ field ∈ fields, IsKeyed field.2) : IsKeyed (.mapping fields)

/-- A datum that is a NaN or holds one, however deep. -/
inductive HasNan : Datum → Prop where
  | nan : HasNan (.float .nan)
  | list {items : List Datum} {item : Datum} (hmem : item ∈ items) (hnan : HasNan item) :
      HasNan (.list items)
  | tuple {items : List Datum} {item : Datum} (hmem : item ∈ items) (hnan : HasNan item) :
      HasNan (.tuple items)
  | mapping {fields : List (String × Datum)} {field : String × Datum} (hmem : field ∈ fields)
      (hnan : HasNan field.2) : HasNan (.mapping fields)

/-- The same datum but for the order of the fields in its mappings. -/
inductive Rearranges : Datum → Datum → Prop where
  | scalar (s : Scalar) : Rearranges (.scalar s) (.scalar s)
  | list {items others : List Datum} (hlength : items.length = others.length)
      (hitems : ∀ pair ∈ items.zip others, Rearranges pair.1 pair.2) :
      Rearranges (.list items) (.list others)
  | tuple {items others : List Datum} (hlength : items.length = others.length)
      (hitems : ∀ pair ∈ items.zip others, Rearranges pair.1 pair.2) :
      Rearranges (.tuple items) (.tuple others)
  | mapping {fields others : List (String × Datum)}
      (hkeys : (fields.map Prod.fst).Perm (others.map Prod.fst))
      (hitems : ∀ key item other, (key, item) ∈ fields → (key, other) ∈ others →
        Rearranges item other) : Rearranges (.mapping fields) (.mapping others)

section Sequences

variable {α β γ : Type} {as : List α} {bs : List β} {cs : List γ}

theorem forall₂_imp_of_mem {R S : α → β → Prop} (hrel : List.Forall₂ R as bs)
    (himp : ∀ a ∈ as, ∀ b ∈ bs, R a b → S a b) : List.Forall₂ S as bs := by
  induction hrel with
  | nil => exact .nil
  | cons hfirst _ ih =>
    refine .cons (himp _ (by simp) _ (by simp) hfirst) (ih ?_)
    exact fun a ha b hb => himp a (by simp [ha]) b (by simp [hb])

theorem forall₂_comp {R : α → β → Prop} {S : β → γ → Prop} {T : α → γ → Prop}
    (hfirst : List.Forall₂ R as bs) (hsecond : List.Forall₂ S bs cs)
    (hcomp : ∀ a ∈ as, ∀ b ∈ bs, ∀ c ∈ cs, R a b → S b c → T a c) : List.Forall₂ T as cs := by
  induction hfirst generalizing cs with
  | nil =>
    cases hsecond
    exact .nil
  | cons hab _ ih =>
    cases hsecond with
    | cons hbc hrest =>
      refine .cons (hcomp _ (by simp) _ (by simp) _ (by simp) hab hbc) (ih hrest ?_)
      exact fun a ha b hb c hc => hcomp a (by simp [ha]) b (by simp [hb]) c (by simp [hc])

/-- Sequences of one length are related place by place where each place says so
    by itself. -/
theorem forall₂_iff_of_zip {R : α → β → Prop} {P : α → Prop} (hlength : as.length = bs.length)
    (hiff : ∀ pair ∈ as.zip bs, R pair.1 pair.2 ↔ P pair.1) :
    List.Forall₂ R as bs ↔ ∀ a ∈ as, P a := by
  induction as generalizing bs with
  | nil => simp [List.eq_nil_of_length_eq_zero hlength.symm]
  | cons a as ih =>
    obtain ⟨b, bs, rfl⟩ := List.exists_cons_of_length_eq_add_one hlength.symm
    rw [List.zip_cons_cons, List.forall_mem_cons] at hiff
    rw [List.forall₂_cons, List.forall_mem_cons, hiff.1, ih (by simpa using hlength) hiff.2]

end Sequences

section Laws

variable {datum other third : Datum}

theorem equalItems_iff {items others : List Datum} :
    equalItems items others = true ↔
      List.Forall₂ (fun item other => item.equal other = true) items others := by
  induction items generalizing others with
  | nil => cases others <;> simp [equalItems]
  | cons item rest ih => cases others <;> simp [equalItems, ih]

theorem equalFields_iff {fields others : List (String × Datum)} :
    equalFields fields others = true ↔
      ∀ field ∈ fields, ∃ other, others.lookup field.1 = some other ∧ field.2.equal other = true := by
  induction fields with
  | nil => simp [equalFields]
  | cons field rest ih =>
    rw [equalFields, Bool.and_eq_true, ih, Option.any_eq_true, List.forall_mem_cons]

/-- Mappings with keys of their own are equal if the keys of one are those of
    the other and have equal values there. -/
theorem equal_mapping_iff {fields others : List (String × Datum)}
    (hfields : (fields.map Prod.fst).Nodup) (hothers : (others.map Prod.fst).Nodup) :
    (mapping fields).equal (mapping others) = true ↔
      (fields.map Prod.fst).Perm (others.map Prod.fst) ∧
        ∀ key item other, (key, item) ∈ fields → (key, other) ∈ others →
          item.equal other = true := by
  rw [equal, Bool.and_eq_true, beq_iff_eq, equalFields_iff]
  constructor
  · rintro ⟨hlength, hall⟩
    refine ⟨?_, ?_⟩
    · -- As many keys, of which none is missing on the other side, are all there are.
      have hsubset : fields.map Prod.fst ⊆ others.map Prod.fst := by
        intro key hkey
        obtain ⟨field, hfield, rfl⟩ := List.mem_map.mp hkey
        obtain ⟨other, hother, _⟩ := hall field hfield
        exact List.mem_map.mpr ⟨_, mem_of_lookup_eq_some hother, rfl⟩
      exact (hfields.subperm hsubset).perm_of_length_le (by simp [hlength])
    · intro key item other hitem hother
      obtain ⟨found, hfound, hequal⟩ := hall _ hitem
      rw [(lookup_eq_some_iff_mem hothers).mpr hother] at hfound
      cases hfound
      exact hequal
  · rintro ⟨hkeys, hall⟩
    refine ⟨by simpa using hkeys.length_eq, ?_⟩
    rintro ⟨key, item⟩ hitem
    obtain ⟨⟨_, other⟩, hother, rfl⟩ :=
      List.mem_map.mp (hkeys.mem_iff.mp (List.mem_map_of_mem hitem))
    exact ⟨other, (lookup_eq_some_iff_mem hothers).mpr hother, hall _ item other hitem hother⟩

theorem scalar_equal_comm (s t : Scalar) : s.equal t = t.equal s := by
  rw [Bool.eq_iff_iff, Scalar.equal_iff, Scalar.equal_iff]
  constructor <;> rintro ⟨hnan, hsame⟩ <;> exact ⟨hsame ▸ hnan, hsame.symm⟩

/-- Equality is symmetric, by induction on one of the sides. -/
theorem IsKeyed.equal_symm (hdatum : datum.IsKeyed) (hother : other.IsKeyed)
    (hequal : datum.equal other = true) : other.equal datum = true := by
  induction hdatum generalizing other with
  | scalar s =>
    cases hother with
    | scalar t => exact (scalar_equal_comm t s).trans hequal
    | _ => simp [equal] at hequal
  | @list items hitems ih =>
    cases hother with
    | @list others hothers =>
      rw [equal, equalItems_iff] at hequal ⊢
      exact (forall₂_imp_of_mem hequal fun item hitem other hother hsame =>
        ih item hitem (hothers other hother) hsame).flip
    | _ => simp [equal] at hequal
  | @tuple items hitems ih =>
    cases hother with
    | @tuple others hothers =>
      rw [equal, equalItems_iff] at hequal ⊢
      exact (forall₂_imp_of_mem hequal fun item hitem other hother hsame =>
        ih item hitem (hothers other hother) hsame).flip
    | _ => simp [equal] at hequal
  | @mapping fields hnodup hitems ih =>
    cases hother with
    | @mapping others hothersNodup hothers =>
      rw [equal_mapping_iff hnodup hothersNodup] at hequal
      rw [equal_mapping_iff hothersNodup hnodup]
      refine ⟨hequal.1.symm, fun key other item hother hitem => ?_⟩
      exact ih _ hitem (hothers _ hother) (hequal.2 key item other hitem hother)
    | _ => simp [equal] at hequal

theorem IsKeyed.equal_comm (hdatum : datum.IsKeyed) (hother : other.IsKeyed) :
    datum.equal other = other.equal datum := by
  rw [Bool.eq_iff_iff]
  exact ⟨hdatum.equal_symm hother, hother.equal_symm hdatum⟩

/-- Equality is transitive. Nothing is rounded where numbers are compared, so
    that their contents are the same all along. -/
theorem IsKeyed.equal_trans (hdatum : datum.IsKeyed) (hother : other.IsKeyed)
    (hthird : third.IsKeyed) (hfirst : datum.equal other = true)
    (hsecond : other.equal third = true) : datum.equal third = true := by
  induction hdatum generalizing other third with
  | scalar s =>
    cases hother with
    | scalar t =>
      cases hthird with
      | scalar u =>
        rw [equal, Scalar.equal_iff] at hfirst hsecond ⊢
        exact ⟨hfirst.1, hfirst.2.trans hsecond.2⟩
      | _ => simp [equal] at hsecond
    | _ => simp [equal] at hfirst
  | @list items hitems ih =>
    cases hother with
    | @list others hothers =>
      cases hthird with
      | @list thirds hthirds =>
        rw [equal, equalItems_iff] at hfirst hsecond ⊢
        exact forall₂_comp hfirst hsecond fun item hitem other hother third hthird =>
          ih item hitem (hothers other hother) (hthirds third hthird)
      | _ => simp [equal] at hsecond
    | _ => simp [equal] at hfirst
  | @tuple items hitems ih =>
    cases hother with
    | @tuple others hothers =>
      cases hthird with
      | @tuple thirds hthirds =>
        rw [equal, equalItems_iff] at hfirst hsecond ⊢
        exact forall₂_comp hfirst hsecond fun item hitem other hother third hthird =>
          ih item hitem (hothers other hother) (hthirds third hthird)
      | _ => simp [equal] at hsecond
    | _ => simp [equal] at hfirst
  | @mapping fields hnodup hitems ih =>
    cases hother with
    | @mapping others hothersNodup hothers =>
      cases hthird with
      | @mapping thirds hthirdsNodup hthirds =>
        rw [equal_mapping_iff hnodup hothersNodup] at hfirst
        rw [equal_mapping_iff hothersNodup hthirdsNodup] at hsecond
        rw [equal_mapping_iff hnodup hthirdsNodup]
        refine ⟨hfirst.1.trans hsecond.1, fun key item third hitem hthird => ?_⟩
        obtain ⟨⟨_, other⟩, hother, rfl⟩ :=
          List.mem_map.mp (hfirst.1.mem_iff.mp (List.mem_map_of_mem hitem))
        exact ih _ hitem (hothers _ hother) (hthirds _ hthird) (hfirst.2 _ item other hitem hother)
          (hsecond.2 _ other third hother hthird)
      | _ => simp [equal] at hsecond
    | _ => simp [equal] at hfirst

theorem hasNan_scalar {s : Scalar} : (scalar s).HasNan ↔ s.content = .nan := by
  constructor
  · rintro ⟨⟩
    rfl
  · intro hnan
    cases s with
    | float x => cases x <;> first | exact .nan | cases hnan
    | _ => cases hnan

theorem not_hasNan_list {items : List Datum} :
    ¬ (list items).HasNan ↔ ∀ item ∈ items, ¬ item.HasNan := by
  refine ⟨fun hnone item hmem hnan => hnone (.list hmem hnan), ?_⟩
  rintro hnone (_ | ⟨hmem, hnan⟩)
  exact hnone _ hmem hnan

theorem not_hasNan_tuple {items : List Datum} :
    ¬ (tuple items).HasNan ↔ ∀ item ∈ items, ¬ item.HasNan := by
  refine ⟨fun hnone item hmem hnan => hnone (.tuple hmem hnan), ?_⟩
  rintro hnone (_ | _ | ⟨hmem, hnan⟩)
  exact hnone _ hmem hnan

theorem not_hasNan_mapping {fields : List (String × Datum)} :
    ¬ (mapping fields).HasNan ↔ ∀ field ∈ fields, ¬ field.2.HasNan := by
  refine ⟨fun hnone field hmem hnan => hnone (.mapping hmem hnan), ?_⟩
  rintro hnone (_ | _ | _ | ⟨hmem, hnan⟩)
  exact hnone _ hmem hnan

/-- A datum equals what it is rearranged to unless there is a NaN in it. -/
theorem Rearranges.equal_iff (hsame : datum.Rearranges other) (hdatum : datum.IsKeyed)
    (hother : other.IsKeyed) : datum.equal other = true ↔ ¬ datum.HasNan := by
  induction hsame with
  | scalar s => rw [equal, Scalar.equal_iff, hasNan_scalar, and_iff_left rfl]
  | @list items others hlength hitems ih =>
    cases hdatum with
    | list hkeyed =>
      cases hother with
      | list hothers =>
        rw [equal, equalItems_iff, not_hasNan_list]
        refine forall₂_iff_of_zip hlength fun pair hpair => ?_
        obtain ⟨hleft, hright⟩ := List.of_mem_zip hpair
        exact ih pair hpair (hkeyed _ hleft) (hothers _ hright)
  | @tuple items others hlength hitems ih =>
    cases hdatum with
    | tuple hkeyed =>
      cases hother with
      | tuple hothers =>
        rw [equal, equalItems_iff, not_hasNan_tuple]
        refine forall₂_iff_of_zip hlength fun pair hpair => ?_
        obtain ⟨hleft, hright⟩ := List.of_mem_zip hpair
        exact ih pair hpair (hkeyed _ hleft) (hothers _ hright)
  | @mapping fields others hkeys hitems ih =>
    cases hdatum with
    | mapping hnodup hkeyed =>
      cases hother with
      | mapping hothersNodup hothers =>
        rw [equal_mapping_iff hnodup hothersNodup, not_hasNan_mapping,
          and_iff_right hkeys]
        constructor
        · rintro hequal ⟨key, item⟩ hitem
          obtain ⟨⟨_, other⟩, hother, rfl⟩ :=
            List.mem_map.mp (hkeys.mem_iff.mp (List.mem_map_of_mem hitem))
          exact (ih _ item other hitem hother (hkeyed _ hitem) (hothers _ hother)).mp
            (hequal _ item other hitem hother)
        · intro hnone key item other hitem hother
          exact (ih _ item other hitem hother (hkeyed _ hitem) (hothers _ hother)).mpr
            (hnone _ hitem)

theorem IsKeyed.rearranges_refl (hdatum : datum.IsKeyed) : datum.Rearranges datum := by
  have hself : ∀ {items : List Datum}, (∀ item ∈ items, item.Rearranges item) →
      ∀ pair ∈ items.zip items, pair.1.Rearranges pair.2 := by
    intro items hitems pair hpair
    exact List.forall₂_zip (List.forall₂_same.mpr hitems) hpair
  induction hdatum with
  | scalar s => exact .scalar s
  | list hitems ih => exact .list rfl (hself ih)
  | tuple hitems ih => exact .tuple rfl (hself ih)
  | @mapping fields hnodup hitems ih =>
    refine .mapping (.refl _) fun key item other hitem hother => ?_
    have hlookup := (lookup_eq_some_iff_mem hnodup).mpr hitem
    rw [(lookup_eq_some_iff_mem hnodup).mpr hother] at hlookup
    cases hlookup
    exact ih _ hitem

theorem Rearranges.symm (hsame : datum.Rearranges other) : other.Rearranges datum := by
  have hswap : ∀ {items others : List Datum}, items.length = others.length →
      (∀ pair ∈ items.zip others, pair.2.Rearranges pair.1) →
      ∀ pair ∈ others.zip items, pair.1.Rearranges pair.2 := by
    intro items others hlength hall pair hpair
    have hplaces : List.Forall₂ (fun item other => other.Rearranges item) items others :=
      List.forall₂_iff_zip.mpr ⟨hlength, hall _⟩
    exact List.forall₂_zip hplaces.flip hpair
  induction hsame with
  | scalar s => exact .scalar s
  | list hlength hitems ih => exact .list hlength.symm (hswap hlength ih)
  | tuple hlength hitems ih => exact .tuple hlength.symm (hswap hlength ih)
  | mapping hkeys hitems ih =>
    exact .mapping hkeys.symm fun key other item hother hitem => ih key item other hitem hother

/-- What equals something has no NaN in it. -/
theorem IsKeyed.not_hasNan (hdatum : datum.IsKeyed) (hother : other.IsKeyed)
    (hequal : datum.equal other = true) : ¬ datum.HasNan :=
  (hdatum.rearranges_refl.equal_iff hdatum hdatum).mp
    (hdatum.equal_trans hother hdatum hequal (hdatum.equal_symm hother hequal))

/-- The order of fields makes no difference to what a datum equals. -/
theorem Rearranges.equal_of_equal (hsame : datum.Rearranges other) (hdatum : datum.IsKeyed)
    (hother : other.IsKeyed) (hthird : third.IsKeyed) (hequal : other.equal third = true) :
    datum.equal third = true := by
  have hback := (hsame.symm.equal_iff hother hdatum).mpr (hother.not_hasNan hthird hequal)
  exact hdatum.equal_trans hother hthird (hother.equal_symm hdatum hback) hequal

theorem Rearranges.equal_eq (hsame : datum.Rearranges other) (hdatum : datum.IsKeyed)
    (hother : other.IsKeyed) (hthird : third.IsKeyed) : datum.equal third = other.equal third := by
  rw [Bool.eq_iff_iff]
  exact ⟨hsame.symm.equal_of_equal hother hdatum hthird,
    hsame.equal_of_equal hdatum hother hthird⟩

theorem Rearranges.kind_eq (hsame : datum.Rearranges other) : datum.kind = other.kind := by
  cases hsame <;> rfl

end Laws

section Agreement

variable {datum other third : Datum} (hdatum : datum.IsKeyed) (hother : other.IsKeyed)

theorem agrees_iff : datum.agrees other = true ↔
    (datum.kind = .bool ↔ other.kind = .bool) ∧ datum.equal other = true := by
  rw [agrees, Bool.and_eq_true, beq_iff_eq, Bool.eq_iff_iff, beq_iff_eq, beq_iff_eq]

include hdatum hother

theorem IsKeyed.agrees_comm : datum.agrees other = other.agrees datum := by
  rw [agrees, agrees, hdatum.equal_comm hother, Bool.beq_comm]

theorem IsKeyed.agrees_trans (hthird : third.IsKeyed) (hfirst : datum.agrees other = true)
    (hsecond : other.agrees third = true) : datum.agrees third = true := by
  rw [agrees_iff] at hfirst hsecond ⊢
  exact ⟨hfirst.1.trans hsecond.1, hdatum.equal_trans hother hthird hfirst.2 hsecond.2⟩

theorem Rearranges.agrees_iff (hsame : datum.Rearranges other) :
    datum.agrees other = true ↔ ¬ datum.HasNan := by
  rw [Datum.agrees_iff, hsame.kind_eq, hsame.equal_iff hdatum hother, and_iff_right Iff.rfl]

theorem Rearranges.agrees_eq (hsame : datum.Rearranges other) (hthird : third.IsKeyed) :
    datum.agrees third = other.agrees third := by
  rw [agrees, agrees, hsame.kind_eq, hsame.equal_eq hdatum hother hthird]

end Agreement

end Datum

end Lineage
