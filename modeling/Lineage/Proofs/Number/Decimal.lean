import Lineage.Proofs.Number.Rounding

namespace Lineage.Binary64

/-- The number that a decimal denotes. -/
def Decimal.toRat (d : Decimal) : ℚ :=
  d.digits * 10 ^ d.exponent

section Reading

variable {d : Decimal} {value : Dyadic}

theorem Decimal.readsAs_iff : d.readsAs value = true ↔ nearest d.toRat = .finite value := by
  have hquotient : ofQuotient d.quotient.1 d.quotient.2 = nearest d.toRat := by
    unfold Decimal.quotient Decimal.toRat
    split
    · next hwhole =>
      obtain ⟨n, hn⟩ := Int.eq_ofNat_of_zero_le hwhole
      rw [hn, ofQuotient_eq _ Nat.one_pos]
      simp
    · next hfraction =>
      obtain ⟨n, hn⟩ : ∃ n : Nat, d.exponent = -n := ⟨(-d.exponent).toNat, by omega⟩
      rw [hn, neg_neg, Int.toNat_natCast, Nat.pow_eq, ofQuotient_eq _ (Nat.pow_pos (by decide))]
      simp [div_eq_mul_inv]
  simp only [Decimal.readsAs, hquotient, beq_iff_eq]

/-- Zeros at the end of a decimal make no difference to the number. -/
theorem Decimal.stripped_spec (fuel : Nat) (d : Decimal) : (d.stripped fuel).toRat = d.toRat ∧
    (0 < d.digits → 0 < (d.stripped fuel).digits) := by
  induction fuel generalizing d with
  | zero => exact ⟨rfl, id⟩
  | succ fuel ih =>
    rw [Decimal.stripped]
    split
    · next hzero =>
      simp only [ne_eq, Bool.and_eq_true, decide_eq_true_eq, beq_iff_eq] at hzero
      obtain ⟨hvalue, hpos⟩ := ih ⟨d.digits / 10, d.exponent + 1⟩
      refine ⟨hvalue.trans ?_, fun _ => hpos (show 0 < d.digits / 10 by omega)⟩
      have hdigits : (d.digits : ℚ) = 10 * (d.digits / 10 : Nat) := by
        exact_mod_cast show d.digits = 10 * (d.digits / 10) by omega
      rw [Decimal.toRat, Decimal.toRat, zpow_add_one₀ (by norm_num), hdigits]
      ring
    · exact ⟨rfl, id⟩

end Reading

section Neighbours

variable {value : Dyadic} {count : Nat} {d : Decimal}

theorem quotientOf_spec (hvalue : 0 < value.toRat) :
    0 < (quotientOf value).1 ∧ 0 < (quotientOf value).2 ∧
      ((quotientOf value).1 : ℚ) / (quotientOf value).2 = value.toRat := by
  cases value with
  | zero => simp [Dyadic.toRat] at hvalue
  | ofOdd n k hodd =>
    rw [Dyadic.toRat_ofOdd_eq_mul_two_pow] at hvalue ⊢
    have hsign : 0 < n := by
      have hpos : (0 : ℚ) < n := pos_of_mul_pos_left hvalue (by positivity)
      exact_mod_cast hpos
    obtain ⟨significand, rfl⟩ := Int.eq_ofNat_of_zero_le hsign.le
    have hsignificand : 0 < significand := by exact_mod_cast hsign
    rw [quotientOf, Int.toNat_natCast]
    split
    · next hwhole =>
      obtain ⟨e, rfl⟩ : ∃ e : Nat, k = -e := ⟨(-k).toNat, by omega⟩
      refine ⟨Nat.mul_pos hsignificand (@Nat.pow_pos 2 _ (by decide)), Nat.one_pos, ?_⟩
      simp
    · next hfraction =>
      obtain ⟨e, rfl⟩ := Int.eq_ofNat_of_zero_le (show 0 ≤ k by omega)
      refine ⟨hsignificand, @Nat.pow_pos 2 _ (by decide), ?_⟩
      simp [div_eq_mul_inv]

/-- The place of the last digit of a decimal with so many digits. -/
def lastPlace (value : Dyadic) (count : Nat) : Int :=
  Int.log 10 value.toRat + 1 - count

/-- The decimal below a number, of so many digits. -/
def lowDecimal (value : Dyadic) (count : Nat) : Decimal :=
  ⟨⌊value.toRat / 10 ^ lastPlace value count⌋₊, lastPlace value count⟩

/-- The decimal above a number, of so many digits. -/
def highDecimal (value : Dyadic) (count : Nat) : Decimal :=
  ⟨⌊value.toRat / 10 ^ lastPlace value count⌋₊ + 1, lastPlace value count⟩

/-- A decimal of so many digits that reads as the number is found if one of the
    neighbours does. -/
theorem decimalOf?_spec (hvalue : 0 < value.toRat) (count : Nat) :
    (∀ d, decimalOf? value count = some d → d.readsAs value = true) ∧
    ((lowDecimal value count).readsAs value = true ∨ (highDecimal value count).readsAs value = true →
      (decimalOf? value count).isSome = true) := by
  obtain ⟨hnum, hden, hquotient⟩ := quotientOf_spec hvalue
  have hlast : pointPosition (quotientOf value).1 (quotientOf value).2 - count =
      lastPlace value count := by
    rw [pointPosition_eq hnum hden, hquotient, lastPlace]
  have hfloor := @scaled_eq (quotientOf value).1 (quotientOf value).2 _ _ _
    (fun num den _ => (Nat.floor_div_eq_div (K := ℚ) num den).symm) 10 (by decide) hden
    (lastPlace value count)
  unfold decimalOf?
  generalize quotientOf value = quotient at *
  obtain ⟨num, den⟩ := quotient
  simp only at hnum hden hquotient hlast hfloor ⊢
  rw [hlast]
  generalize hscaled : (if lastPlace value count ≥ 0 then
    (num, den * Nat.pow 10 (lastPlace value count).toNat)
    else (num * Nat.pow 10 (-lastPlace value count).toNat, den)) = scaled
  have hdigits : scaled.1 / scaled.2 = ⌊value.toRat / 10 ^ lastPlace value count⌋₊ := by
    rw [← hscaled, ← hquotient]
    push_cast at hfloor
    rw [← hfloor]
    split <;> rfl
  have hlow : (⟨⌊value.toRat / 10 ^ lastPlace value count⌋₊, lastPlace value count⟩ : Decimal) =
      lowDecimal value count := rfl
  have hhigh : (⟨⌊value.toRat / 10 ^ lastPlace value count⌋₊ + 1, lastPlace value count⟩ : Decimal) =
      highDecimal value count := rfl
  simp only [hdigits, hlow, hhigh]
  cases hbelow : (lowDecimal value count).readsAs value <;>
    cases habove : (highDecimal value count).readsAs value
  · simp
  · simp [habove]
  · simp [hbelow]
  · simp only
    split <;> simp [hbelow, habove]

/-- One of the neighbours of seventeen digits is so near that it reads as the
    number. -/
theorem exists_seventeen (hdouble : IsDouble value.toRat) (hvalue : 0 < value.toRat) :
    (lowDecimal value 17).readsAs value = true ∨ (highDecimal value 17).readsAs value = true := by
  have hplace : (0 : ℚ) < 10 ^ lastPlace value 17 := zpow_pos (by norm_num) _
  have hsmall : 10 ^ lastPlace value 17 * 10 ^ 16 ≤ value.toRat := by
    have hlog := @Int.zpow_log_le_self ℚ _ _ _ _ 10 _ (by decide) hvalue
    have hsum : lastPlace value 17 + 16 = Int.log 10 value.toRat := by
      unfold lastPlace
      omega
    rw [← hsum, zpow_add₀ (by norm_num)] at hlog
    exact_mod_cast hlog
  have hbelow : (lowDecimal value 17).toRat ≤ value.toRat := by
    have hfloor := Nat.floor_le (div_nonneg hvalue.le hplace.le)
    rwa [le_div_iff₀ hplace] at hfloor
  have hnext : (highDecimal value 17).toRat =
      (lowDecimal value 17).toRat + 10 ^ lastPlace value 17 := by
    simp only [Decimal.toRat, highDecimal, lowDecimal]
    push_cast
    ring
  have habove : value.toRat < (highDecimal value 17).toRat := by
    have hfloor := Nat.lt_floor_add_one (value.toRat / 10 ^ lastPlace value 17)
    rw [div_lt_iff₀ hplace] at hfloor
    simpa [Decimal.toRat, highDecimal] using hfloor
  rw [Decimal.readsAs_iff, Decimal.readsAs_iff]
  -- The neighbours are one place apart, so the nearer is within half a place.
  rcases le_or_gt (value.toRat - (lowDecimal value 17).toRat) (10 ^ lastPlace value 17 / 2) with
    hnear | hfar
  · exact Or.inl (nearest_of_near hdouble hvalue (by linarith) (by linarith))
  · exact Or.inr (nearest_of_near hdouble hvalue (by linarith) (by linarith))

/-- The shortest decimal of a number is read as the number. -/
theorem shortest_spec (hdouble : IsDouble value.toRat) (hvalue : 0 < value.toRat) :
    nearest (shortest value).toRat = .finite value ∧ 0 < (shortest value).digits := by
  have hfound : ∃ d, ((List.range 17).map (· + 1)).findSome? (decimalOf? value) = some d := by
    rw [← Option.isSome_iff_exists, List.findSome?_isSome_iff]
    exact ⟨17, by decide, (decimalOf?_spec hvalue 17).2 (exists_seventeen hdouble hvalue)⟩
  obtain ⟨d, hd⟩ := hfound
  obtain ⟨count, _, hcount⟩ := List.exists_of_findSome?_eq_some hd
  have hreads := (decimalOf?_spec hvalue count).1 d hcount
  rw [Decimal.readsAs_iff] at hreads
  obtain ⟨hsame, hpos⟩ := Decimal.stripped_spec 20 d
  rw [shortest, hd, Option.getD_some]
  refine ⟨hsame.symm ▸ hreads, hpos ?_⟩
  rcases Nat.eq_zero_or_pos d.digits with hzero | hpositive
  · -- Nothing but zero is read from no digits.
    rw [Decimal.toRat, hzero, Nat.cast_zero, zero_mul] at hreads
    cases hreads
    simp at hvalue
  · exact hpositive

end Neighbours

end Lineage.Binary64
