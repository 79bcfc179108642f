import Lineage.Number.Numeral
import Mathlib.Data.List.Basic

namespace Lineage

namespace Text

variable {c : Char} {n : Nat}

theorem isDigit_iff : c.isDigit = true ↔ 48 ≤ c.toNat ∧ c.toNat ≤ 57 := by
  simp only [Char.isDigit, Bool.and_eq_true, decide_eq_true_eq, UInt32.le_iff_toNat_le]
  rfl

/-- The ten figures are digits of the first script. -/
theorem digitValue?_of_isDigit (hdigit : c.isDigit = true) :
    digitValue? c = some (c.toNat - 48) := by
  obtain ⟨hlow, hhigh⟩ := isDigit_iff.mp hdigit
  have hbelow : c.toNat < 48 + 10 := by omega
  simp [digitValue?, digitZeros, hlow, hbelow]

theorem asciiDigit?_of_isDigit (hdigit : c.isDigit = true) :
    asciiDigit? c = some (c.toNat - 48) := by
  obtain ⟨hlow, hhigh⟩ := isDigit_iff.mp hdigit
  have hrange : '0' ≤ c ∧ c ≤ '9' := ⟨hlow, hhigh⟩
  simp [asciiDigit?, hrange]

theorem asciiDigit?_lt (hdigit : asciiDigit? c = some n) : n < 10 := by
  unfold asciiDigit? at hdigit
  split at hdigit
  · next hrange =>
    obtain ⟨hlow, hhigh⟩ := isDigit_iff.mp (show c.isDigit = true from hrange)
    cases hdigit
    show c.toNat - 48 < 10
    omega
  · cases hdigit

theorem hexValue?_digitChar : ∀ n < 16, hexValue? n.digitChar = some n := by
  decide

/-- The last figure of a number in hexadecimal, and those before it. -/
theorem hex_succ {width : Nat} (hwidth : 0 < width) (n : Nat) :
    (hex (width + 1) n).toList = (hex width (n / 16)).toList ++ [(n % 16).digitChar] := by
  by_cases hsmall : n < 16
  · have hzero : n / 16 = 0 := by omega
    have hmod : n % 16 = n := by omega
    have hpad : List.replicate width '0' = List.replicate (width - 1) '0' ++ ['0'] := by
      rw [← List.replicate_succ', Nat.sub_add_cancel hwidth]
    simp [hex, hzero, hmod, Nat.toDigits_of_lt_base hsmall, Nat.toDigits_zero, hpad]
  · rw [hex, hex, Nat.toDigits_of_base_le (by decide) (by omega)]
    simp

theorem hex_four (hn : n < 0x10000) : ∃ a b c d : Nat, a < 16 ∧ b < 16 ∧ c < 16 ∧ d < 16 ∧
    ((a * 16 + b) * 16 + c) * 16 + d = n ∧
    (hex 4 n).toList = [a.digitChar, b.digitChar, c.digitChar, d.digitChar] := by
  have hone : (hex 1 (n / 16 / 16 / 16)).toList = [(n / 16 / 16 / 16).digitChar] := by
    simp [hex, Nat.toDigits_of_lt_base (show n / 16 / 16 / 16 < 16 by omega)]
  refine ⟨n / 16 / 16 / 16, n / 16 / 16 % 16, n / 16 % 16, n % 16, by omega, by omega, by omega,
    by omega, by omega, ?_⟩
  rw [hex_succ (by decide), hex_succ (by decide), hex_succ (by decide), hone]
  rfl

end Text

namespace Numeral

variable {cs rest : List Char}

/-- What follows a run of digits does not continue it. -/
def EndsRun (rest : List Char) : Prop :=
  ∀ c ∈ rest.head?, Text.digitValue? c = none ∧ c ≠ '_'

theorem digitRunTail_of_endsRun (hends : EndsRun rest) : digitRunTail rest = ([], rest) := by
  cases rest with
  | nil => rfl
  | cons c rest =>
    obtain ⟨hnone, hline⟩ := hends c rfl
    rw [digitRunTail]
    · simp only [hnone]
    · rintro _ _ rfl
      exact absurd rfl hline

theorem digitRunTail_append (hdigits : ∀ c ∈ cs, c.isDigit = true) (hends : EndsRun rest) :
    digitRunTail (cs ++ rest) = (cs.map fun c => c.toNat - 48, rest) := by
  induction cs with
  | nil => exact digitRunTail_of_endsRun hends
  | cons c cs ih =>
    obtain ⟨hdigit, hothers⟩ := List.forall_mem_cons.mp hdigits
    rw [List.cons_append, digitRunTail]
    · simp only [Text.digitValue?_of_isDigit hdigit, ih hothers, List.map_cons]
    · rintro _ _ rfl
      exact absurd hdigit (by decide)

/-- Figures are read up to where they end. -/
theorem digitRun_append (hdigits : ∀ c ∈ cs, c.isDigit = true) (hends : EndsRun rest) :
    digitRun (cs ++ rest) = (cs.map fun c => c.toNat - 48, rest) := by
  cases cs with
  | nil =>
    cases rest with
    | nil => rfl
    | cons c rest =>
      obtain ⟨hnone, _⟩ := hends c rfl
      simp [digitRun, hnone]
  | cons c cs =>
    obtain ⟨hdigit, hothers⟩ := List.forall_mem_cons.mp hdigits
    rw [List.cons_append, digitRun]
    simp only [Text.digitValue?_of_isDigit hdigit, digitRunTail_append hothers hends, List.map_cons]

theorem ofDigits_map (cs : List Char) :
    ofDigits (cs.map fun c => c.toNat - 48) = Nat.ofDigitChars 10 cs 0 := by
  rw [ofDigits, List.foldl_map, Nat.ofDigitChars_eq_foldl]
  rfl

theorem isDigit_of_mem_toDigits {n : Nat} {c : Char} (hmem : c ∈ Nat.toDigits 10 n) :
    c.isDigit = true :=
  Nat.isDigit_of_mem_toDigits (by decide) (by decide) hmem

/-- The figures of a number are read as that number. -/
theorem digitRun_toDigits (n : Nat) (hends : EndsRun rest) :
    ∃ digits, digitRun (Nat.toDigits 10 n ++ rest) = (digits, rest) ∧
      digits.length = (Nat.toDigits 10 n).length ∧ ofDigits digits = n := by
  refine ⟨_, digitRun_append (fun c => isDigit_of_mem_toDigits) hends, List.length_map _, ?_⟩
  rw [ofDigits_map, Nat.ofDigitChars_ten_toDigits]

theorem stripChars_eq {p : Char → Bool} (hnone : ∀ c ∈ cs, p c = false) :
    Text.stripChars p cs = cs := by
  have hdrop : ∀ ds : List Char, (∀ c ∈ ds, p c = false) → ds.dropWhile p = ds := by
    intro ds hds
    cases ds with
    | nil => rfl
    | cons d ds => simp [hds d List.mem_cons_self]
  rw [Text.stripChars, hdrop cs hnone, hdrop cs.reverse fun c hc => hnone c (List.mem_reverse.mp hc),
    List.reverse_reverse]

/-- No character of a number in writing is white space. -/
theorem isPadding_eq_false {c : Char} (hc : c.isDigit = true ∨ c = '-') : isPadding c = false := by
  rcases hc with hdigit | rfl
  · obtain ⟨hlow, hhigh⟩ := Text.isDigit_iff.mp hdigit
    simp only [isPadding, Text.isSpace]
    grind
  · decide

/-- The characters of an integer in writing. -/
theorem toList_toString (n : Int) :
    (toString n).toList = (if n < 0 then ['-'] else []) ++ Nat.toDigits 10 n.natAbs := by
  rw [Int.toString_eq_repr, Int.repr_eq_if]
  by_cases hsign : 0 ≤ n
  · have hnat : n.toNat = n.natAbs := by omega
    rw [if_pos hsign, if_neg (by omega), Nat.repr_eq_ofList_toDigits, hnat]
    simp
  · have hnat : (-n).toNat = n.natAbs := by omega
    rw [if_neg hsign, if_pos (by omega), Nat.repr_eq_ofList_toDigits, hnat]
    simp

theorem splitSign_toDigits (n : Nat) : splitSign (Nat.toDigits 10 n) = (false, Nat.toDigits 10 n) := by
  cases hdigits : Nat.toDigits 10 n with
  | nil => rfl
  | cons c rest =>
    have hdigit : c.isDigit = true :=
      isDigit_of_mem_toDigits (by rw [hdigits]; exact List.mem_cons_self)
    unfold splitSign
    split
    · next h => cases h; exact absurd hdigit (by decide)
    · next h => cases h; exact absurd hdigit (by decide)
    · rfl

/-- An integer in writing is read as itself unless it is too long. -/
theorem readInt?_toString {n : Int} (hshort : (Nat.toDigits 10 n.natAbs).length ≤ maxDigits) :
    readInt? (toString n) = some n := by
  obtain ⟨digits, hrun, hlength, hvalue⟩ :=
    @digitRun_toDigits [] n.natAbs (fun c hc => by cases hc)
  rw [List.append_nil] at hrun
  have hstrip : Text.stripChars isPadding (toString n).toList = (toString n).toList := by
    apply stripChars_eq
    intro c hc
    rw [toList_toString, List.mem_append] at hc
    rcases hc with hc | hc
    · split at hc
      · exact isPadding_eq_false (Or.inr (List.mem_singleton.mp hc))
      · cases hc
    · exact isPadding_eq_false (Or.inl (isDigit_of_mem_toDigits hc))
  have hsome : digits.isEmpty = false := by
    rw [List.isEmpty_eq_false_iff, ← List.length_pos_iff, hlength]
    exact Nat.length_toDigits_pos
  have hlong : ¬ digits.length > maxDigits := by omega
  have hsign : splitSign (toString n).toList = (decide (n < 0), Nat.toDigits 10 n.natAbs) := by
    rw [toList_toString]
    by_cases hnegative : n < 0
    · simp [hnegative, splitSign]
    · simp [hnegative, splitSign_toDigits]
  simp only [readInt?, hstrip, hsign, hrun, hsome, hvalue, hlong]
  by_cases hnegative : n < 0
  · simp only [hnegative, decide_true, decide_false, if_true]
    exact congrArg some (by omega)
  · simp only [hnegative, decide_false, Bool.false_eq_true, if_false]
    exact congrArg some (by omega)

end Numeral

end Lineage
