import Lineage.Number.Shortest
import Mathlib.Algebra.Order.Field.Power
import Mathlib.Algebra.Order.Floor.Semifield
import Mathlib.Data.Int.Log
import Mathlib.Data.Rat.Floor
import Mathlib.Tactic.FieldSimp
import Mathlib.Tactic.Linarith
import Mathlib.Tactic.NormNum
import Mathlib.Tactic.Positivity
import Mathlib.Tactic.Ring

namespace Lineage.Binary64

/-- The natural number nearest to a quotient, a half going to the even one. -/
def halfEven (q : ℚ) : Nat :=
  if 2 * (q - ⌊q⌋₊) < 1 ∨ 2 * (q - ⌊q⌋₊) = 1 ∧ ⌊q⌋₊ % 2 = 0 then ⌊q⌋₊ else ⌊q⌋₊ + 1

/-- The exponent of the last bit that the double nearest to a quotient keeps. -/
def unitOf (q : ℚ) : Int :=
  max (Int.log 2 q - 52) (-1074)

/-- The double nearest to a quotient that is not negative. -/
def nearest (q : ℚ) : Binary64 :=
  if q = 0 then .finite 0
  else if 971 ≤ unitOf q ∧ 2 ^ 53 ≤ halfEven (q / 2 ^ unitOf q) * 2 ^ (unitOf q - 971).toNat then
    .infinite false
  else .finite (Dyadic.ofIntWithPrec (halfEven (q / 2 ^ unitOf q)) (-unitOf q))

/-- A number that is a double as it stands: a significand of at most 53 bits in
    units of a power of two, with all its bits in use unless the power is the
    smallest. -/
structure IsDoubleAt (q : ℚ) (significand : Nat) (unit : Int) : Prop where
  exact : q = significand * 2 ^ unit
  below : significand < 2 ^ 53
  normal : 2 ^ 52 ≤ significand ∨ unit = -1074
  smallest : -1074 ≤ unit
  largest : unit ≤ 971

/-- A number that is not negative and that a double can have for its value. -/
def IsDouble (q : ℚ) : Prop :=
  ∃ significand unit, IsDoubleAt q significand unit

section Quotients

variable {num den : Nat}

/-- What is computed from a quotient and a power of a base, the power going to
    the side where it is whole. -/
theorem scaled_eq {α : Type} {f : Nat → Nat → α} {g : ℚ → α}
    (heq : ∀ num den, 0 < den → f num den = g (num / den)) {base : Nat} (hbase : 0 < base)
    (hden : 0 < den) (e : Int) :
    (if e ≥ 0 then f num (den * Nat.pow base e.toNat) else f (num * Nat.pow base (-e).toNat) den) =
      g (num / den / (base : ℚ) ^ e) := by
  have hpositive : (0 : ℚ) < base := by exact_mod_cast hbase
  split
  · next he =>
    obtain ⟨n, rfl⟩ := Int.eq_ofNat_of_zero_le he
    rw [Int.toNat_natCast, Nat.pow_eq, heq _ _ (Nat.mul_pos hden (Nat.pow_pos hbase))]
    simp [div_div]
  · next he =>
    obtain ⟨n, rfl⟩ : ∃ n : Nat, e = -n := ⟨(-e).toNat, by omega⟩
    rw [neg_neg, Int.toNat_natCast, Nat.pow_eq, heq _ _ hden]
    simp [div_eq_mul_inv, mul_right_comm]

theorem roundHalfEven_eq (num : Nat) (hden : 0 < den) :
    roundHalfEven num den = halfEven (num / den) := by
  have hpositive : (0 : ℚ) < den := by exact_mod_cast hden
  have hfloor : ⌊(num : ℚ) / den⌋₊ = num / den := Nat.floor_div_eq_div num den
  have hrest : 2 * ((num : ℚ) / den - (num / den : Nat)) = (2 * (num % den) : Nat) / den := by
    have hsplit : (num : ℚ) = den * (num / den : Nat) + (num % den : Nat) := by
      exact_mod_cast (Nat.div_add_mod num den).symm
    rw [eq_div_iff hpositive.ne', mul_sub, sub_mul, mul_assoc, div_mul_cancel₀ _ hpositive.ne']
    push_cast at hsplit ⊢
    linarith
  simp only [roundHalfEven, halfEven, hfloor, hrest, div_lt_one hpositive, div_eq_one_iff_eq hpositive.ne',
    Nat.cast_lt, Nat.cast_inj, Bool.or_eq_true, Bool.and_eq_true, decide_eq_true_eq, beq_iff_eq]

/-- A logarithm is found from those of numerator and denominator, up to one. -/
theorem log_quotient {base : Nat} (hbase : 1 < base) (hnum : 0 < num) (hden : 0 < den) :
    Int.log base ((num : ℚ) / den) =
      if (base : ℚ) ^ ((Nat.log base num : Int) - Nat.log base den) ≤ (num : ℚ) / den then
        (Nat.log base num : Int) - Nat.log base den
      else (Nat.log base num : Int) - Nat.log base den - 1 := by
  have hpositive : (0 : ℚ) < base := by exact_mod_cast Nat.lt_trans Nat.zero_lt_one hbase
  have hnumber : (0 : ℚ) < num := by exact_mod_cast hnum
  have hdivisor : (0 : ℚ) < den := by exact_mod_cast hden
  have hquotient : (0 : ℚ) < num / den := div_pos hnumber hdivisor
  have hbounds : ∀ n : Nat, 0 < n → (base : ℚ) ^ (Nat.log base n : Int) ≤ n ∧
      (n : ℚ) < (base : ℚ) ^ ((Nat.log base n : Int) + 1) := by
    intro n hn
    constructor
    · rw [zpow_natCast]
      exact_mod_cast Nat.pow_log_le_self base hn.ne'
    · exact_mod_cast Nat.lt_pow_succ_log_self hbase n
  obtain ⟨hnumLow, hnumHigh⟩ := hbounds num hnum
  obtain ⟨hdenLow, hdenHigh⟩ := hbounds den hden
  have hlow : (base : ℚ) ^ ((Nat.log base num : Int) - Nat.log base den - 1) ≤ num / den := by
    rw [sub_sub, zpow_sub₀ hpositive.ne']
    exact div_le_div₀ hnumber.le hnumLow hdivisor hdenHigh.le
  have hhigh : (num : ℚ) / den <
      (base : ℚ) ^ ((Nat.log base num : Int) - Nat.log base den + 1) := by
    rw [show (Nat.log base num : Int) - Nat.log base den + 1 =
      Nat.log base num + 1 - Nat.log base den by ring, zpow_sub₀ hpositive.ne']
    exact div_lt_div₀ hnumHigh hdenLow (zpow_nonneg hpositive.le _) (zpow_pos hpositive _)
  rw [Int.zpow_le_iff_le_log hbase hquotient] at hlow
  rw [Int.lt_zpow_iff_log_lt hbase hquotient] at hhigh
  split
  · next hreached =>
    rw [Int.zpow_le_iff_le_log hbase hquotient] at hreached
    omega
  · next hmissed =>
    rw [Int.zpow_le_iff_le_log hbase hquotient] at hmissed
    omega

/-- A power of a base is compared with a quotient on the side where it is
    whole. -/
theorem pow_le_quotient {base : Nat} (hbase : 0 < base) (hden : 0 < den) (e : Int) :
    (if e ≥ 0 then num ≥ den * Nat.pow base e.toNat else num * Nat.pow base (-e).toNat ≥ den) ↔
      (base : ℚ) ^ e ≤ num / den := by
  have hpositive : (0 : ℚ) < base := by exact_mod_cast hbase
  have hsides : ∀ num den : Nat, 0 < den → (num ≥ den) = (1 ≤ (num : ℚ) / den) := by
    intro num den hden
    have hdivisor : (0 : ℚ) < den := by exact_mod_cast hden
    rw [one_le_div hdivisor, Nat.cast_le]
  rw [scaled_eq hsides hbase hden, one_le_div (zpow_pos hpositive e)]

theorem floorLog2_eq (hnum : 0 < num) (hden : 0 < den) :
    floorLog2 num den = Int.log 2 ((num : ℚ) / den) := by
  have hlog := log_quotient (show 1 < 2 by decide) hnum hden
  simp only [floorLog2, pow_le_quotient (show 0 < 2 by decide) hden, Nat.log2_eq_log_two]
  exact_mod_cast hlog.symm

theorem digitCount_eq (hnum : 0 < num) : digitCount num = Nat.log 10 num + 1 := by
  have hle : ∀ k, 0 < k → ((Nat.toDigits 10 num).length ≤ k ↔ Nat.log 10 num < k) := by
    intro k hk
    rw [Nat.length_toDigits_le_iff (by decide) hk, Nat.log_lt_iff_lt_pow (by decide) hnum.ne']
  have hpos := @Nat.length_toDigits_pos 10 num
  refine Nat.le_antisymm ((hle _ (Nat.succ_pos _)).mpr (Nat.lt_succ_self _)) ?_
  exact (hle _ hpos).mp (Nat.le_refl _)

theorem pointPosition_eq (hnum : 0 < num) (hden : 0 < den) :
    pointPosition num den = Int.log 10 ((num : ℚ) / den) + 1 := by
  have hlog := log_quotient (show 1 < 10 by decide) hnum hden
  have hbelow : ∀ e : Int,
      (if e ≥ 0 then num < den * Nat.pow 10 e.toNat else num * Nat.pow 10 (-e).toNat < den) ↔
        ¬((10 : ℚ) ^ e ≤ num / den) := by
    intro e
    have hle := @pow_le_quotient num den 10 (by decide) hden e
    rw [show ((10 : Nat) : ℚ) = 10 by norm_num] at hle
    rw [← hle]
    split <;> exact Nat.not_le.symm
  have hestimate : (digitCount num : Int) - digitCount den =
      (Nat.log 10 num : Int) - Nat.log 10 den := by
    rw [digitCount_eq hnum, digitCount_eq hden]
    omega
  push_cast at hlog
  simp only [pointPosition, hbelow, hestimate, hlog]
  split_ifs <;> omega

theorem ofQuotient_eq (num : Nat) (hden : 0 < den) : ofQuotient num den = nearest (num / den) := by
  have hdivisor : (0 : ℚ) < den := by exact_mod_cast hden
  unfold ofQuotient nearest
  by_cases hnum : num = 0
  · simp [hnum]
  · have hquotient : (num : ℚ) / den ≠ 0 := div_ne_zero (by exact_mod_cast hnum) hdivisor.ne'
    have hscaled := fun e => @scaled_eq num den _ _ _ (fun num _ => roundHalfEven_eq num) 2
      (by decide) hden e
    simp only [beq_iff_eq, hnum, if_false, hquotient, floorLog2_eq (Nat.pos_of_ne_zero hnum) hden,
      hscaled, Nat.cast_ofNat]
    simp only [Bool.and_eq_true, decide_eq_true_eq, ge_iff_le, Nat.pow_eq, unitOf]
    exact if_congr Iff.rfl rfl rfl

end Quotients

section Rounding

variable {q : ℚ} {n : Nat}

/-- A number is rounded to the natural number that is less than a half away. -/
theorem halfEven_of_near (hlow : (n : ℚ) - 1 / 2 < q) (hhigh : q < n + 1 / 2) : halfEven q = n := by
  have hnonneg : (0 : ℚ) ≤ n := Nat.cast_nonneg n
  unfold halfEven
  by_cases habove : (n : ℚ) ≤ q
  · have hfloor : ⌊q⌋₊ = n := by
      rw [Nat.floor_eq_iff (by linarith)]
      exact ⟨habove, by linarith⟩
    rw [hfloor, if_pos (Or.inl (by linarith))]
  · cases n with
    | zero =>
      have hfloor : ⌊q⌋₊ = 0 := Nat.floor_of_nonpos (by simpa using (not_le.mp habove).le)
      rw [hfloor, if_pos (Or.inl (by linarith))]
    | succ less =>
      push_cast at hlow habove
      have hfloor : ⌊q⌋₊ = less := by
        have hless : (0 : ℚ) ≤ less := Nat.cast_nonneg less
        rw [Nat.floor_eq_iff (by linarith)]
        exact ⟨by linarith, by linarith⟩
      rw [hfloor, if_neg]
      rintro (h | ⟨h, _⟩) <;> linarith

theorem le_halfEven (hlow : (n : ℚ) ≤ q) : n ≤ halfEven q := by
  have hfloor : n ≤ ⌊q⌋₊ := Nat.le_floor hlow
  unfold halfEven
  split <;> omega

theorem halfEven_le (hnonneg : 0 ≤ q) (hhigh : q < n) : halfEven q ≤ n := by
  have hfloor : ⌊q⌋₊ < n := (Nat.floor_lt hnonneg).mpr hhigh
  unfold halfEven
  split <;> omega

/-- A number in units of the last bit that its double keeps: it takes at most 53
    bits, and all of them unless the unit is the smallest. -/
theorem scaled_bounds (hq : 0 < q) : q / 2 ^ unitOf q < (2 ^ 53 : Nat) ∧
    (((2 ^ 52 : Nat) : ℚ) ≤ q / 2 ^ unitOf q ∨ unitOf q = -1074) := by
  have hlog := @Int.zpow_log_le_self ℚ _ _ _ _ 2 q (by decide) hq
  have hnext := @Int.lt_zpow_succ_log_self ℚ _ _ _ _ 2 (by decide) q
  have hunit : (0 : ℚ) < 2 ^ unitOf q := zpow_pos (by norm_num) _
  have hcast : ∀ k : Nat, (((2 ^ k : Nat)) : ℚ) * 2 ^ unitOf q = 2 ^ ((k : Int) + unitOf q) := by
    intro k
    rw [zpow_add₀ (by norm_num), zpow_natCast]
    push_cast
    rfl
  rw [div_lt_iff₀ hunit, le_div_iff₀ hunit, hcast, hcast]
  push_cast at hlog hnext ⊢
  constructor
  · refine hnext.trans_le (zpow_le_zpow_right₀ (by norm_num) ?_)
    unfold unitOf
    omega
  · by_cases hsmallest : unitOf q = -1074
    · exact Or.inr hsmallest
    · refine Or.inl (le_trans (zpow_le_zpow_right₀ (by norm_num) ?_) hlog)
      unfold unitOf at hsmallest ⊢
      omega

/-- A significand that was rounded up to the next power of two makes a double. -/
theorem isDouble_of_rounded {significand : Nat} {unit : Int} (hmost : significand ≤ 2 ^ 53)
    (hnormal : 2 ^ 52 ≤ significand ∨ unit = -1074) (hsmallest : -1074 ≤ unit)
    (hfinite : ¬(971 ≤ unit ∧ 2 ^ 53 ≤ significand * 2 ^ (unit - 971).toNat)) :
    IsDouble (significand * 2 ^ unit) := by
  have hlargest : unit ≤ 971 := by
    by_contra hlarge
    refine hfinite ⟨by omega, ?_⟩
    have hbits : 2 ^ 52 ≤ significand := hnormal.resolve_right (by omega)
    have hpow : 2 ^ 1 ≤ 2 ^ (unit - 971).toNat := Nat.pow_le_pow_right (by decide) (by omega)
    calc 2 ^ 53 = 2 ^ 52 * 2 ^ 1 := by norm_num
      _ ≤ significand * 2 ^ (unit - 971).toNat := Nat.mul_le_mul hbits hpow
  rcases Nat.lt_or_eq_of_le hmost with hbelow | rfl
  · exact ⟨significand, unit, rfl, hbelow, hnormal, hsmallest, hlargest⟩
  · have hmore : unit ≠ 971 := by
      rintro rfl
      exact hfinite ⟨le_refl _, by norm_num⟩
    refine ⟨2 ^ 52, unit + 1, ?_, by norm_num, Or.inl (le_refl _), by omega, by omega⟩
    rw [zpow_add_one₀ (by norm_num)]
    push_cast
    ring

/-- What is rounded to a finite number is rounded to a double. -/
theorem nearest_cases (hq : 0 ≤ q) : nearest q = .infinite false ∨
    ∃ value : Dyadic, nearest q = .finite value ∧ IsDouble value.toRat := by
  unfold nearest
  split
  · exact Or.inr ⟨0, rfl, 0, -1074, by simp, by norm_num, Or.inr rfl, by norm_num, by norm_num⟩
  · next hzero =>
    split
    · exact Or.inl rfl
    · next hfinite =>
      obtain ⟨hbelow, hnormal⟩ := scaled_bounds (lt_of_le_of_ne hq (Ne.symm hzero))
      have hscaled : 0 ≤ q / 2 ^ unitOf q := by positivity
      refine Or.inr ⟨_, rfl, ?_⟩
      rw [Dyadic.toRat_ofIntWithPrec_eq_mul_two_pow, neg_neg]
      exact isDouble_of_rounded (halfEven_le hscaled hbelow) (hnormal.imp_left le_halfEven)
        (le_max_right _ _) hfinite

theorem unitOf_eq {unit : Int} (hq : 0 < q) (hsmallest : -1074 ≤ unit)
    (hlow : 2 ^ 52 * 2 ^ unit ≤ q ∨ unit = -1074) (hhigh : q < 2 ^ 53 * 2 ^ unit) :
    unitOf q = unit := by
  have hcast : ∀ k : Nat, ((2 : ℚ) ^ k) * 2 ^ unit = 2 ^ ((k : Int) + unit) := by
    intro k
    rw [zpow_add₀ (by norm_num), zpow_natCast]
  have hatLeast := @Int.zpow_le_iff_le_log ℚ _ _ _ _ 2 (by decide) ((52 : Nat) + unit) q hq
  have hlessThan := @Int.lt_zpow_iff_log_lt ℚ _ _ _ _ 2 (by decide) ((53 : Nat) + unit) q hq
  rw [Nat.cast_two] at hatLeast hlessThan
  rw [hcast, hatLeast] at hlow
  rw [hcast, hlessThan] at hhigh
  unfold unitOf
  omega

/-- A number in the range of a unit is rounded by it. -/
theorem nearest_of_unit {value : Dyadic} {significand : Nat} {unit : Int} (hq : 0 < q)
    (hunit : unitOf q = unit) (hvalue : value.toRat = significand * 2 ^ unit)
    (hlow : ((significand : ℚ) - 1 / 2) * 2 ^ unit < q)
    (hhigh : q < (significand + 1 / 2) * 2 ^ unit)
    (hfinite : ¬(971 ≤ unit ∧ 2 ^ 53 ≤ significand * 2 ^ (unit - 971).toNat)) :
    nearest q = .finite value := by
  have hpos : (0 : ℚ) < 2 ^ unit := zpow_pos (by norm_num) _
  have hsignificand : halfEven (q / 2 ^ unit) = significand :=
    halfEven_of_near ((lt_div_iff₀ hpos).mpr hlow) ((div_lt_iff₀ hpos).mpr hhigh)
  rw [nearest, if_neg hq.ne', hunit, hsignificand, if_neg hfinite, Binary64.finite.injEq,
    ← Dyadic.toRat_inj, Dyadic.toRat_ofIntWithPrec_eq_mul_two_pow, hvalue, neg_neg]
  rfl

/-- Below a power of two the units are half as large. -/
theorem nearest_below_power {value : Dyadic} {unit : Int} (hvalue : value.toRat = 2 ^ 52 * 2 ^ unit)
    (hsmallest : -1074 < unit) (hlargest : unit ≤ 971)
    (hlow : value.toRat - value.toRat / 2 ^ 54 < q) (hhigh : q < value.toRat) :
    nearest q = .finite value := by
  have hunit : (2 : ℚ) ^ unit = 2 * 2 ^ (unit - 1) := by
    rw [zpow_sub_one₀ (by norm_num)]
    ring
  have hpos : (0 : ℚ) < 2 ^ (unit - 1) := zpow_pos (by norm_num) _
  rw [hvalue, hunit] at hlow hhigh
  have hq : 0 < q := by linarith
  refine @nearest_of_unit q value (2 ^ 53) (unit - 1) hq ?_ ?_ ?_ ?_ ?_
  · exact unitOf_eq hq (by omega) (Or.inl (by linarith)) (by linarith)
  · rw [hvalue, hunit]
    push_cast
    ring
  · push_cast
    linarith
  · push_cast
    linarith
  · rintro ⟨hleast, _⟩
    omega

/-- A number that is away from a double by less than one part in `2 ^ 54` of it is
    rounded to it. -/
theorem nearest_of_near {value : Dyadic} (hdouble : IsDouble value.toRat) (hvalue : 0 < value.toRat)
    (hlow : value.toRat - value.toRat / 2 ^ 54 < q) (hhigh : q < value.toRat + value.toRat / 2 ^ 54) :
    nearest q = .finite value := by
  obtain ⟨significand, unit, hexact, hbelow, hnormal, hsmallest, hlargest⟩ := hdouble
  have hunit : (0 : ℚ) < 2 ^ unit := zpow_pos (by norm_num) _
  have hsignificand : (significand : ℚ) + 1 ≤ 2 ^ 53 := by exact_mod_cast hbelow
  have hq : 0 < q := by linarith
  by_cases hunder : 2 ^ 52 * 2 ^ unit ≤ q ∨ unit = -1074
  · rw [hexact] at hlow hhigh
    refine nearest_of_unit hq (unitOf_eq hq hsmallest hunder ?_) hexact ?_ ?_ ?_
    · nlinarith
    · nlinarith
    · nlinarith
    · rintro ⟨hleast, hoverflow⟩
      obtain rfl : unit = 971 := by omega
      norm_num at hoverflow
      omega
  · -- A number whose units are smaller than those of the double lies below it, and
    -- nothing but a power of two is that near.
    obtain ⟨hless, hlarge⟩ := not_or.mp hunder
    rw [not_le] at hless
    have hpower : significand = 2 ^ 52 := by
      have hbits := hnormal.resolve_right hlarge
      have hnone : (significand : ℚ) < (2 ^ 52 + 1 : Nat) := by
        rw [hexact] at hlow
        push_cast
        nlinarith
      have hsmall : significand < 2 ^ 52 + 1 := by exact_mod_cast hnone
      omega
    rw [hpower] at hexact
    push_cast at hexact
    exact nearest_below_power hexact (by omega) hlargest hlow (hexact ▸ hless)

theorem nearest_of_small (hq : 0 ≤ q) (hsmall : q < 2 ^ (-1075 : Int)) : nearest q = .finite 0 := by
  rcases hq.eq_or_lt with rfl | hpos
  · rfl
  · have hhalf : (2 : ℚ) ^ (-1075 : Int) = 1 / 2 * 2 ^ (-1074 : Int) := by
      rw [show (-1075 : Int) = -1074 - 1 by norm_num, zpow_sub_one₀ (by norm_num)]
      ring
    have hunit : (0 : ℚ) < 2 ^ (-1074 : Int) := zpow_pos (by norm_num) _
    rw [hhalf] at hsmall
    refine @nearest_of_unit q 0 0 (-1074) hpos ?_ ?_ ?_ ?_ ?_
    · exact unitOf_eq hpos (le_refl _) (Or.inr rfl) (by linarith)
    · rw [Dyadic.toRat_zero, Nat.cast_zero, zero_mul]
    · rw [Nat.cast_zero]
      linarith
    · rwa [Nat.cast_zero, zero_add]
    · rintro ⟨hleast, _⟩
      omega

theorem nearest_of_large (hlarge : 2 ^ (1024 : Int) ≤ q) : nearest q = .infinite false := by
  have hq : 0 < q := lt_of_lt_of_le (by positivity) hlarge
  have hlog := (@Int.zpow_le_iff_le_log ℚ _ _ _ _ 2 (by decide) 1024 q hq).mp hlarge
  have hunit : 972 ≤ unitOf q := by
    unfold unitOf
    omega
  have hbits : 2 ^ 52 ≤ halfEven (q / 2 ^ unitOf q) :=
    le_halfEven ((scaled_bounds hq).2.resolve_right (by omega))
  have hpow : 2 ^ 1 ≤ 2 ^ (unitOf q - 971).toNat := Nat.pow_le_pow_right (by decide) (by omega)
  rw [nearest, if_neg hq.ne', if_pos]
  refine ⟨by omega, ?_⟩
  calc 2 ^ 53 = 2 ^ 52 * 2 ^ 1 := by norm_num
    _ ≤ halfEven (q / 2 ^ unitOf q) * 2 ^ (unitOf q - 971).toNat := Nat.mul_le_mul hbits hpow

end Rounding

section Decimals

variable {digits : Nat}

theorem digits_bounds (hdigits : 0 < digits) (exponent : Int) :
    (10 : ℚ) ^ (exponent + digitCount digits - 1) ≤ digits * 10 ^ exponent ∧
      (digits : ℚ) * 10 ^ exponent < 10 ^ (exponent + digitCount digits) := by
  have hpos : (0 : ℚ) < 10 ^ exponent := zpow_pos (by norm_num) _
  have hlow : (10 : ℚ) ^ Nat.log 10 digits ≤ digits := by
    exact_mod_cast Nat.pow_log_le_self 10 hdigits.ne'
  have hhigh : (digits : ℚ) < 10 ^ (Nat.log 10 digits + 1) := by
    exact_mod_cast Nat.lt_pow_succ_log_self (show 1 < 10 by decide) digits
  rw [digitCount_eq hdigits]
  constructor
  · rw [show exponent + ((Nat.log 10 digits + 1 : Nat) : Int) - 1 = (Nat.log 10 digits : Nat) + exponent by
      push_cast; ring, zpow_add₀ (by norm_num), zpow_natCast]
    exact mul_le_mul_of_nonneg_right hlow hpos.le
  · rw [add_comm exponent, zpow_add₀ (by norm_num), zpow_natCast]
    exact mul_lt_mul_of_pos_right hhigh hpos

theorem tiny_le : (10 : ℚ) ^ (-331 : Int) ≤ 2 ^ (-1075 : Int) := by
  have hpowers : 2 ^ 1075 ≤ 10 ^ 331 := by decide +kernel
  rw [zpow_neg, zpow_neg, inv_le_inv₀ (by positivity) (by positivity)]
  exact_mod_cast hpowers

theorem huge_le : (2 : ℚ) ^ (1024 : Int) ≤ 10 ^ (310 : Int) := by
  have hpowers : 2 ^ 1024 ≤ 10 ^ 310 := by decide +kernel
  exact_mod_cast hpowers

/-- The exponents that are settled without a power are beyond the doubles. -/
theorem ofDecimal_eq (digits : Nat) (exponent : Int) :
    ofDecimal digits exponent = nearest (digits * 10 ^ exponent) := by
  have hbase : (1 : ℚ) ≤ 10 := by norm_num
  unfold ofDecimal
  by_cases hdigits : digits = 0
  · simp [hdigits, nearest]
  obtain ⟨hlow, hhigh⟩ := digits_bounds (Nat.pos_of_ne_zero hdigits) exponent
  simp only [beq_iff_eq, hdigits, decide_eq_true_eq, Bool.or_eq_true, false_or]
  split
  · next hsmall =>
    refine (nearest_of_small (by positivity) (hhigh.trans_le ?_)).symm
    exact (zpow_le_zpow_right₀ hbase (show _ ≤ (-331 : Int) by omega)).trans tiny_le
  · split
    · next hlarge =>
      refine (nearest_of_large (le_trans ?_ hlow)).symm
      exact huge_le.trans (zpow_le_zpow_right₀ hbase (show (310 : Int) ≤ _ by omega))
    · split
      · next hwhole =>
        obtain ⟨n, rfl⟩ := Int.eq_ofNat_of_zero_le hwhole
        rw [ofQuotient_eq _ Nat.one_pos]
        simp
      · next hfraction =>
        obtain ⟨n, rfl⟩ : ∃ n : Nat, exponent = -n := ⟨(-exponent).toNat, by omega⟩
        rw [neg_neg, Int.toNat_natCast, Nat.pow_eq, ofQuotient_eq _ (Nat.pow_pos (by decide))]
        simp [div_eq_mul_inv]

end Decimals

/-- A number as doubles are: with a double for its size, if it is finite. -/
def IsProper : Binary64 → Prop
  | finite value => IsDouble |value.toRat|
  | _ => True

theorem IsDouble.nonneg {q : ℚ} (hdouble : IsDouble q) : 0 ≤ q := by
  obtain ⟨significand, unit, hexact, _⟩ := hdouble
  rw [hexact]
  positivity

theorem isProper_ofDecimal (digits : Nat) (exponent : Int) : (ofDecimal digits exponent).IsProper := by
  rw [ofDecimal_eq]
  rcases nearest_cases (show (0 : ℚ) ≤ digits * 10 ^ exponent by positivity) with
    hinfinite | ⟨value, hfinite, hdouble⟩
  · rw [hinfinite]
    trivial
  · rw [hfinite, IsProper, abs_of_nonneg hdouble.nonneg]
    exact hdouble

theorem isProper_zero : (finite 0).IsProper :=
  ⟨0, -1074, by simp, by norm_num, Or.inr rfl, by norm_num, by norm_num⟩

theorem IsProper.neg {x : Binary64} (hproper : x.IsProper) : x.neg.IsProper := by
  cases x with
  | nan => trivial
  | infinite _ => trivial
  | negZero => exact isProper_zero
  | finite value =>
    rw [Binary64.neg]
    split
    · trivial
    · rw [IsProper, Dyadic.toRat_neg, abs_neg]
      exact hproper

end Lineage.Binary64
