import Lineage.Proofs.Json.Texts
import Lineage.Proofs.Number.Decimal

namespace Lineage

namespace Numeral

variable {cs : List Char} {n : Nat}

theorem ofDigits_filterMap (hdigits : ∀ c ∈ cs, c.isDigit = true) :
    ofDigits (cs.filterMap Text.asciiDigit?) = Nat.ofDigitChars 10 cs 0 := by
  have hmap : cs.filterMap Text.asciiDigit? = cs.map fun c => c.toNat - 48 := by
    rw [← List.filterMap_eq_map]
    exact List.filterMap_congr fun c hc => Text.asciiDigit?_of_isDigit (hdigits c hc)
  rw [hmap, ofDigits_map]

theorem ofDigitChars_zeros (k init : Nat) :
    Nat.ofDigitChars 10 (List.replicate k '0') init = init * 10 ^ k := by
  induction k generalizing init with
  | zero => simp
  | succ k ih =>
    rw [List.replicate_succ, Nat.ofDigitChars_cons, ih, Nat.pow_succ]
    simp only [Char.toNat, Nat.sub_self, Nat.add_zero]
    ring

/-- A number that is not zero is not written with a zero in front. -/
theorem exists_toDigits (hn : 0 < n) : ∃ c cs, Nat.toDigits 10 n = c :: cs ∧ c ≠ '0' := by
  have hfigure : ∀ n < 10, 0 < n → n.digitChar ≠ '0' := by decide
  induction n using Nat.strongRecOn with
  | ind n ih =>
    by_cases hsmall : n < 10
    · exact ⟨n.digitChar, [], Nat.toDigits_of_lt_base hsmall, hfigure n hsmall hn⟩
    · obtain ⟨c, cs, hdigits, hc⟩ := ih (n / 10) (by omega) (by omega)
      refine ⟨c, cs ++ [(n % 10).digitChar], ?_, hc⟩
      rw [Nat.toDigits_of_base_le (by decide) (by omega), hdigits, List.cons_append]

end Numeral

namespace Json

/-- What follows a number does not continue it. -/
def EndsNumber (rest : List Char) : Prop :=
  ∀ c ∈ rest.head?, c.isDigit = false ∧ c ≠ '.' ∧ c ≠ 'e' ∧ c ≠ 'E'

/-- The characters start with a number without a sign, of the given size, and go
    on with the rest. -/
def Leads (cs : List Char) (size : Scalar) (rest : List Char) : Prop :=
  ∃ whole fraction exponent afterWhole afterFraction,
    integerPart cs = some (whole, afterWhole) ∧
    fractionPart afterWhole = (fraction, afterFraction) ∧
    exponentPart afterFraction = (exponent, rest) ∧ magnitude whole fraction exponent = .ok size

section Parts

variable {cs rest : List Char} {c : Char} {size : Scalar}

theorem Leads.number_eq (hleads : Leads cs size rest) : number cs = .ok (.scalar size, rest) ∧
    number ('-' :: cs) = .ok (.scalar (negated size), rest) := by
  obtain ⟨whole, fraction, exponent, afterWhole, afterFraction, hwhole, hfraction, hexponent, hsize⟩ :=
    hleads
  constructor
  · unfold number
    split
    · next negative unsigned hsplit =>
      split at hsplit
      · cases hwhole
      · cases hsplit
        simp [hwhole, hfraction, hexponent, hsize, bind, Except.bind, pure, Except.pure]
  · simp [number, hwhole, hfraction, hexponent, hsize, bind, Except.bind, pure, Except.pure]

theorem takeWhile_digits (hdigits : ∀ c ∈ cs, c.isDigit = true)
    (hends : ∀ c ∈ rest.head?, c.isDigit = false) :
    (cs ++ rest).takeWhile Char.isDigit = cs ∧ (cs ++ rest).dropWhile Char.isDigit = rest := by
  have hfigures : ∀ c ∈ cs, c.isDigit = true := hdigits
  rw [List.takeWhile_append_of_pos hfigures, List.dropWhile_append_of_pos hfigures]
  cases rest with
  | nil => simp
  | cons c rest => simp [hends c rfl]

theorem integerPart_digits (hc : c ≠ '0') (hdigit : c.isDigit = true)
    (hdigits : ∀ c ∈ cs, c.isDigit = true) (hends : ∀ c ∈ rest.head?, c.isDigit = false) :
    integerPart (c :: (cs ++ rest)) = some (c :: cs, rest) := by
  obtain ⟨htake, hdrop⟩ := takeWhile_digits hdigits hends
  have hfigure : c.isDigit = true := hdigit
  simp [integerPart, hc, hfigure, htake, hdrop]

theorem fractionPart_digits (hsome : cs ≠ []) (hdigits : ∀ c ∈ cs, c.isDigit = true)
    (hends : ∀ c ∈ rest.head?, c.isDigit = false) :
    fractionPart ('.' :: (cs ++ rest)) = (cs, rest) := by
  obtain ⟨htake, hdrop⟩ := takeWhile_digits hdigits hends
  cases cs with
  | nil => exact (hsome rfl).elim
  | cons c cs => simp only [fractionPart, htake, hdrop]

theorem fractionPart_none (hends : ∀ c ∈ rest.head?, c ≠ '.') : fractionPart rest = ([], rest) := by
  unfold fractionPart
  split
  · exact absurd rfl (hends _ rfl)
  · rfl

theorem exponentPart_none (hends : ∀ c ∈ rest.head?, c ≠ 'e' ∧ c ≠ 'E') :
    exponentPart rest = (none, rest) := by
  cases rest with
  | nil => rfl
  | cons c rest =>
    obtain ⟨hsmall, hlarge⟩ := hends c rfl
    simp [exponentPart, hsmall, hlarge]

theorem exponentPart_digits (negative : Bool) (hsome : cs ≠ [])
    (hdigits : ∀ c ∈ cs, c.isDigit = true) (hends : ∀ c ∈ rest.head?, c.isDigit = false) :
    exponentPart ('e' :: (if negative then '-' else '+') :: (cs ++ rest)) =
      (some (if negative then -(Nat.ofDigitChars 10 cs 0 : Int) else Nat.ofDigitChars 10 cs 0), rest) := by
  obtain ⟨htake, hdrop⟩ := takeWhile_digits hdigits hends
  have hvalue := Numeral.ofDigits_filterMap hdigits
  have hsign : Numeral.splitSign ((if negative then '-' else '+') :: (cs ++ rest)) =
      (negative, cs ++ rest) := by
    cases negative <;> rfl
  cases cs with
  | nil => exact (hsome rfl).elim
  | cons c cs =>
    rw [exponentPart]
    simp only [beq_self_eq_true, Bool.true_or, if_true, hsign, htake, hdrop, hvalue]

/-- The digits before a point: no zero in front of others. -/
structure IsWhole (whole : List Char) : Prop where
  digits : ∀ c ∈ whole, c.isDigit = true
  first : whole = ['0'] ∨ ∃ c cs, whole = c :: cs ∧ c ≠ '0'

/-- The digits after a point, with the point if there are any. -/
def pointed (fraction : List Char) : List Char :=
  if fraction.isEmpty then [] else '.' :: fraction

theorem isWhole_toDigits (n : Nat) : IsWhole (Nat.toDigits 10 n) := by
  refine ⟨fun _ => Numeral.isDigit_of_mem_toDigits, ?_⟩
  rcases Nat.eq_zero_or_pos n with rfl | hn
  · exact Or.inl rfl
  · exact Or.inr (Numeral.exists_toDigits hn)

theorem integerPart_whole {whole : List Char} (hwhole : IsWhole whole)
    (hends : ∀ c ∈ rest.head?, c.isDigit = false) :
    integerPart (whole ++ rest) = some (whole, rest) := by
  rcases hwhole.first with rfl | ⟨c, cs, rfl, hc⟩
  · rfl
  · obtain ⟨hdigit, hdigits⟩ := List.forall_mem_cons.mp hwhole.digits
    exact integerPart_digits hc hdigit hdigits hends

theorem leads_toDigits {n : Nat} (hshort : (Nat.toDigits 10 n).length ≤ Numeral.maxDigits)
    (hends : EndsNumber rest) : Leads (Nat.toDigits 10 n ++ rest) (.int n) rest := by
  refine ⟨Nat.toDigits 10 n, [], none, rest, rest,
    integerPart_whole (isWhole_toDigits n) fun c hc => (hends c hc).1,
    fractionPart_none fun c hc => (hends c hc).2.1, exponentPart_none fun c hc => (hends c hc).2.2, ?_⟩
  have hvalue : Numeral.ofDigits ((Nat.toDigits 10 n).filterMap Text.asciiDigit?) = n := by
    rw [Numeral.ofDigits_filterMap (isWhole_toDigits n).digits, Nat.ofDigitChars_ten_toDigits]
  simp [magnitude, Nat.not_lt.mpr hshort, hvalue, pure, Except.pure]

/-- A number with a point or an exponent is a float. -/
theorem leads_float {whole fraction tail : List Char} {exponent : Option Int}
    (hwhole : IsWhole whole) (hfraction : ∀ c ∈ fraction, c.isDigit = true)
    (htail : exponentPart tail = (exponent, rest))
    (hends : ∀ c ∈ tail.head?, c.isDigit = false ∧ c ≠ '.')
    (hfloat : fraction ≠ [] ∨ exponent.isSome = true) :
    Leads (whole ++ (pointed fraction ++ tail))
      (.float (.ofDecimal (Nat.ofDigitChars 10 (whole ++ fraction) 0)
        (exponent.getD 0 - fraction.length))) rest := by
  have hvalue : Numeral.ofDigits ((whole ++ fraction).filterMap Text.asciiDigit?) =
      Nat.ofDigitChars 10 (whole ++ fraction) 0 :=
    Numeral.ofDigits_filterMap fun c hc =>
      (List.mem_append.mp hc).elim (hwhole.digits c) (hfraction c)
  have hpointed : (∀ c ∈ (pointed fraction ++ tail).head?, c.isDigit = false) ∧
      fractionPart (pointed fraction ++ tail) = (fraction, tail) := by
    unfold pointed
    cases hsome : fraction with
    | nil => exact ⟨fun c hc => (hends c hc).1, fractionPart_none fun c hc => (hends c hc).2⟩
    | cons c cs =>
      refine ⟨fun c hc => ?_, fractionPart_digits (by simp) (hsome ▸ hfraction)
        fun c hc => (hends c hc).1⟩
      obtain rfl : '.' = c := by simpa using hc
      rfl
  have hnumber : (fraction.isEmpty && exponent.isNone) = false := by
    rcases hfloat with h | h
    · simp [h]
    · simp [h]
  refine ⟨whole, fraction, exponent, _, tail, integerPart_whole hwhole hpointed.1, hpointed.2, htail,
    ?_⟩
  simp only [magnitude, hnumber, hvalue]
  rfl

end Parts

section Rendering

variable {rest : List Char}

theorem toList_natToString (n : Nat) : (toString n).toList = Nat.toDigits 10 n := by
  rw [Nat.toString_eq_ofList_toDigits, String.toList_ofList]

/-- An exponent in writing is read as itself. -/
theorem exponentPart_exponentText (exponent : Int) (hends : EndsNumber rest) :
    exponentPart ('e' :: ((Binary64.exponentText exponent).toList ++ rest)) = (some exponent, rest) := by
  obtain ⟨padded, hpadded, hsome, hdigits, hvalue⟩ : ∃ padded,
      (if (toString exponent.natAbs).length < 2 then "0" ++ toString exponent.natAbs
        else toString exponent.natAbs).toList = padded ∧ padded ≠ [] ∧
      (∀ c ∈ padded, c.isDigit = true) ∧ Nat.ofDigitChars 10 padded 0 = exponent.natAbs := by
    have hdigits := (isWhole_toDigits exponent.natAbs).digits
    split
    · refine ⟨_, rfl, by simp, ?_, ?_⟩
      · rw [String.toList_append, toList_natToString]
        exact List.forall_mem_cons.mpr ⟨rfl, hdigits⟩
      · rw [String.toList_append, toList_natToString, Nat.ofDigitChars_append]
        exact Nat.ofDigitChars_ten_toDigits
    · rw [toList_natToString]
      exact ⟨_, rfl, Nat.toDigits_ne_nil, hdigits, Nat.ofDigitChars_ten_toDigits⟩
  have hread := exponentPart_digits (decide (exponent < 0)) hsome hdigits fun c hc => (hends c hc).1
  have hsign : (if exponent < 0 then "-" else "+").toList = [if exponent < 0 then '-' else '+'] := by
    split <;> rfl
  have hnumber : (if exponent < 0 then -(exponent.natAbs : Int) else exponent.natAbs) = exponent := by
    split <;> omega
  simp only [decide_eq_true_eq, hvalue, hnumber] at hread
  rw [Binary64.exponentText, String.toList_append, hsign, hpadded]
  exact hread

/-- The characters of an exponent, if there is one. -/
def exponentChars : Option Int → List Char
  | none => []
  | some exponent => 'e' :: (Binary64.exponentText exponent).toList

/-- How a decimal is laid out: digits before the point, digits after it and an
    exponent. At least one of the last two is there. -/
structure IsLaidOut (d : Binary64.Decimal) (whole fraction : List Char) (exponent : Option Int) :
    Prop where
  text : d.render.toList = whole ++ (pointed fraction ++ exponentChars exponent)
  isWhole : IsWhole whole
  digits : ∀ c ∈ fraction, c.isDigit = true
  isFloat : fraction ≠ [] ∨ exponent.isSome = true
  value : (Nat.ofDigitChars 10 (whole ++ fraction) 0 : ℚ) *
    10 ^ (exponent.getD 0 - fraction.length) = d.toRat

/-- A decimal in writing is read as what it denotes. -/
theorem IsLaidOut.leads {d : Binary64.Decimal} {whole fraction : List Char} {exponent : Option Int}
    (hlaidOut : IsLaidOut d whole fraction exponent) (hends : EndsNumber rest) :
    Leads (d.render.toList ++ rest) (.float (Binary64.nearest d.toRat)) rest := by
  have htail : exponentPart (exponentChars exponent ++ rest) = (exponent, rest) := by
    cases exponent with
    | none => exact exponentPart_none fun c hc => (hends c hc).2.2
    | some e => exact exponentPart_exponentText e hends
  have hnext : ∀ c ∈ (exponentChars exponent ++ rest).head?, c.isDigit = false ∧ c ≠ '.' := by
    cases exponent with
    | none => exact fun c hc => ⟨(hends c hc).1, (hends c hc).2.1⟩
    | some e =>
      intro c hc
      obtain rfl : 'e' = c := by simpa [exponentChars] using hc
      exact ⟨rfl, by decide⟩
  have hleads := leads_float hlaidOut.isWhole hlaidOut.digits htail hnext hlaidOut.isFloat
  rw [Binary64.ofDecimal_eq, hlaidOut.value] at hleads
  rw [hlaidOut.text, List.append_assoc, List.append_assoc]
  exact hleads

section Layouts

variable {d : Binary64.Decimal} {point : Int}
  (hpoint : point = d.exponent + (Nat.toDigits 10 d.digits).length)

include hpoint

/-- Small magnitudes have a zero before the point. -/
theorem isLaidOut_small (hlow : -4 < point) (hhigh : point ≤ 0) :
    IsLaidOut d ['0'] (List.replicate (-point).toNat '0' ++ Nat.toDigits 10 d.digits) none where
  text := by
    have hmiddle : -4 < point ∧ point ≤ 16 := ⟨hlow, by omega⟩
    simp [Binary64.Decimal.render, ← hpoint, hmiddle, hhigh, pointed,
      exponentChars]
  isWhole := ⟨by simp, Or.inl rfl⟩
  digits := by
    intro c hc
    rcases List.mem_append.mp hc with hc | hc
    · rw [List.eq_of_mem_replicate hc]
      rfl
    · exact Numeral.isDigit_of_mem_toDigits hc
  isFloat := Or.inl (by simp [Nat.toDigits_ne_nil])
  value := by
    have hlength : (0 : Int) - (List.replicate (-point).toNat '0' ++ Nat.toDigits 10 d.digits).length =
        d.exponent := by
      rw [List.length_append, List.length_replicate]
      omega
    rw [Option.getD_none, hlength, Binary64.Decimal.toRat, List.cons_append, List.nil_append,
      Nat.ofDigitChars_cons, Nat.ofDigitChars_append, Numeral.ofDigitChars_zeros]
    simp [Nat.ofDigitChars_ten_toDigits]

/-- Large magnitudes with fewer digits than places have zeros before the point. -/
theorem isLaidOut_padded (hpos : 0 < d.digits) (hlow : (Nat.toDigits 10 d.digits).length ≤ point)
    (hhigh : point ≤ 16) :
    IsLaidOut d (Nat.toDigits 10 d.digits ++ List.replicate d.exponent.toNat '0') ['0'] none where
  text := by
    have hcount := @Nat.length_toDigits_pos 10 d.digits
    have hmiddle : -4 < point ∧ point ≤ 16 := ⟨by omega, hhigh⟩
    have hplaces : (Nat.toDigits 10 d.digits).length ≤ point.toNat := by omega
    have hzeros : point.toNat - (Nat.toDigits 10 d.digits).length = d.exponent.toNat := by omega
    simp [Binary64.Decimal.render, ← hpoint, hmiddle, pointed, exponentChars,
      show ¬point ≤ 0 by omega, List.take_of_length_le hplaces, List.drop_eq_nil_of_le hplaces, hzeros]
  isWhole := by
    obtain ⟨first, others, hfirst, hnonzero⟩ := Numeral.exists_toDigits hpos
    refine ⟨fun c hc => ?_, Or.inr ⟨first, others ++ _, by rw [hfirst]; rfl, hnonzero⟩⟩
    rcases List.mem_append.mp hc with hc | hc
    · exact Numeral.isDigit_of_mem_toDigits hc
    · rw [List.eq_of_mem_replicate hc]
      rfl
  digits := by simp
  isFloat := Or.inl (by simp)
  value := by
    obtain ⟨n, hn⟩ := Int.eq_ofNat_of_zero_le (show 0 ≤ d.exponent by omega)
    have hzero : ['0'] = List.replicate 1 '0' := rfl
    rw [Nat.ofDigitChars_append, Nat.ofDigitChars_append, Nat.ofDigitChars_ten_toDigits,
      Numeral.ofDigitChars_zeros, hzero, Numeral.ofDigitChars_zeros, Binary64.Decimal.toRat, hn]
    simp

/-- Magnitudes between have the point among their digits. -/
theorem isLaidOut_split (hpos : 0 < d.digits) (hlow : 0 < point)
    (hbelow : point < (Nat.toDigits 10 d.digits).length) (hhigh : point ≤ 16) :
    IsLaidOut d ((Nat.toDigits 10 d.digits).take point.toNat)
      ((Nat.toDigits 10 d.digits).drop point.toNat) none where
  text := by
    have hmiddle : -4 < point ∧ point ≤ 16 := ⟨by omega, hhigh⟩
    have hplaces : point.toNat ≤ (Nat.toDigits 10 d.digits).length := by omega
    have hfraction : ¬(Nat.toDigits 10 d.digits).length ≤ point.toNat := by omega
    simp [Binary64.Decimal.render, ← hpoint, hmiddle, pointed, exponentChars,
      show ¬point ≤ 0 by omega, hplaces, hfraction]
  isWhole := by
    obtain ⟨first, others, hfirst, hnonzero⟩ := Numeral.exists_toDigits hpos
    obtain ⟨n, hn⟩ : ∃ n, point.toNat = n + 1 := ⟨point.toNat - 1, by omega⟩
    refine ⟨fun c hc => Numeral.isDigit_of_mem_toDigits (List.mem_of_mem_take hc),
      Or.inr ⟨first, others.take n, ?_, hnonzero⟩⟩
    rw [hfirst, hn, List.take_succ_cons]
  digits := fun c hc => Numeral.isDigit_of_mem_toDigits (List.mem_of_mem_drop hc)
  isFloat := Or.inl (by simp; omega)
  value := by
    have hlength : (0 : Int) - ((Nat.toDigits 10 d.digits).drop point.toNat).length = d.exponent := by
      rw [List.length_drop]
      omega
    rw [List.take_append_drop, Nat.ofDigitChars_ten_toDigits, Option.getD_none, hlength,
      Binary64.Decimal.toRat]

/-- Other magnitudes have an exponent. -/
theorem isLaidOut_scientific (hpos : 0 < d.digits) (houtside : ¬(-4 < point ∧ point ≤ 16)) :
    IsLaidOut d ((Nat.toDigits 10 d.digits).take 1) ((Nat.toDigits 10 d.digits).drop 1)
      (some (point - 1)) where
  text := by
    simp only [Binary64.Decimal.render, toList_natToString, ← hpoint, Bool.and_eq_true,
      decide_eq_true_eq, houtside, if_false]
    unfold pointed exponentChars
    cases (Nat.toDigits 10 d.digits).drop 1 <;> simp
  isWhole := by
    obtain ⟨first, others, hfirst, hnonzero⟩ := Numeral.exists_toDigits hpos
    refine ⟨fun c hc => Numeral.isDigit_of_mem_toDigits (List.mem_of_mem_take hc),
      Or.inr ⟨first, [], ?_, hnonzero⟩⟩
    rw [hfirst, List.take_succ_cons, List.take_zero]
  digits := fun c hc => Numeral.isDigit_of_mem_toDigits (List.mem_of_mem_drop hc)
  isFloat := Or.inr rfl
  value := by
    have hcount := @Nat.length_toDigits_pos 10 d.digits
    have hlength : point - 1 - ((Nat.toDigits 10 d.digits).drop 1).length = d.exponent := by
      rw [List.length_drop]
      omega
    rw [List.take_append_drop, Nat.ofDigitChars_ten_toDigits, Option.getD_some, hlength,
      Binary64.Decimal.toRat]

end Layouts

theorem exists_layout {d : Binary64.Decimal} (hpos : 0 < d.digits) :
    ∃ whole fraction exponent, IsLaidOut d whole fraction exponent := by
  obtain ⟨point, hpoint⟩ : ∃ point, point = d.exponent + (Nat.toDigits 10 d.digits).length := ⟨_, rfl⟩
  by_cases hmiddle : -4 < point ∧ point ≤ 16
  · rcases Int.lt_or_le 0 point with hlow | hsmall
    · rcases Int.lt_or_le point (Nat.toDigits 10 d.digits).length with hbelow | hbeyond
      · exact ⟨_, _, _, isLaidOut_split hpoint hpos hlow hbelow hmiddle.2⟩
      · exact ⟨_, _, _, isLaidOut_padded hpoint hpos hbeyond hmiddle.2⟩
    · exact ⟨_, _, _, isLaidOut_small hpoint hmiddle.1 hsmall⟩
  · exact ⟨_, _, _, isLaidOut_scientific hpoint hpos hmiddle⟩

variable {charset : Charset} {levels : Nat} {s : Scalar} {x : Binary64}

/-- A scalar that is read as it is written: no action, and no number that would
    be refused or rounded. -/
def IsReadable : Scalar → Prop
  | .int n => (Nat.toDigits 10 n.natAbs).length ≤ Numeral.maxDigits
  | .float x => x.IsProper
  | .action _ => False
  | _ => True

/-- Characters that start with a number start with a figure. -/
theorem Leads.exists_digit {cs : List Char} {size : Scalar} (hleads : Leads cs size rest) :
    ∃ c others, cs = c :: others ∧ c.isDigit = true := by
  obtain ⟨_, _, _, _, _, hwhole, _⟩ := hleads
  cases cs with
  | nil => cases hwhole
  | cons c others =>
    refine ⟨c, others, rfl, ?_⟩
    simp only [integerPart] at hwhole
    split at hwhole
    · next hzero =>
      rw [eq_of_beq hzero]
      rfl
    · split at hwhole
      · assumption
      · cases hwhole

/-- No word starts with a figure, after a sign or without one. -/
theorem word?_digit {c : Char} {others : List Char} (hdigit : c.isDigit = true) :
    word? (c :: others) = none ∧ word? ('-' :: c :: others) = none := by
  have hdiffers : ∀ d : Char, d.isDigit = false → (d == c) = false := by
    intro d hd
    rw [beq_eq_false_iff_ne]
    rintro rfl
    rw [hd] at hdigit
    cases hdigit
  have hnone : ∀ entry ∈ words, entry.1.toList.isPrefixOf (c :: others) = false ∧
      entry.1.toList.isPrefixOf ('-' :: c :: others) = false := by
    have hletter : ∀ {d : Char} {ds : List Char}, d.isDigit = false → d ≠ '-' →
        (d :: ds).isPrefixOf (c :: others) = false ∧
          (d :: ds).isPrefixOf ('-' :: c :: others) = false := by
      intro d ds hd hsign
      simp [List.isPrefixOf, hdiffers d hd, hsign]
    have hinfinity : (("-Infinity".toList).isPrefixOf (c :: others) = false) ∧
        ("-Infinity".toList).isPrefixOf ('-' :: c :: others) = false := by
      show ('-' :: 'I' :: _).isPrefixOf _ = false ∧ ('-' :: 'I' :: _).isPrefixOf _ = false
      simp [List.isPrefixOf, hdiffers '-' rfl, hdiffers 'I' rfl]
    simp only [words, List.forall_mem_cons, List.not_mem_nil, false_implies, implies_true, and_true]
    exact ⟨hletter rfl (by decide), hletter rfl (by decide), hletter rfl (by decide),
      hletter rfl (by decide), hletter rfl (by decide), hinfinity⟩
  constructor <;> rw [word?, List.findSome?_eq_none_iff]
  · exact fun entry hentry => if_neg (by rw [(hnone entry hentry).1]; exact Bool.false_ne_true)
  · exact fun entry hentry => if_neg (by rw [(hnone entry hentry).2]; exact Bool.false_ne_true)

/-- A number, with a sign or without, is read as a value. -/
theorem Leads.value_eq {cs : List Char} {size : Scalar} (hleads : Leads cs size rest)
    (levels fuel : Nat) :
    value levels (fuel + 1) cs = .ok (.scalar size, rest) ∧
      value levels (fuel + 1) ('-' :: cs) = .ok (.scalar (negated size), rest) := by
  obtain ⟨hplain, hsigned⟩ := hleads.number_eq
  obtain ⟨c, others, rfl, hdigit⟩ := hleads.exists_digit
  obtain ⟨hword, hsignedWord⟩ := @word?_digit c others hdigit
  constructor
  · rw [value, hword]
    · exact hplain
    all_goals
      rintro _ h
      cases h
      exact absurd hdigit (by decide)
  · rw [value, hsignedWord]
    · exact hsigned
    all_goals
      rintro _ h
      cases h

theorem value_int {n : Int} (hshort : (Nat.toDigits 10 n.natAbs).length ≤ Numeral.maxDigits)
    (hends : EndsNumber rest) (fuel : Nat) :
    value levels (fuel + 1) ((toString n).toList ++ rest) = .ok (.int n, rest) := by
  obtain ⟨hplain, hsigned⟩ := (leads_toDigits hshort hends).value_eq levels fuel
  rw [Numeral.toList_toString]
  split
  · next hnegative =>
    have hsize : -(n.natAbs : Int) = n := by omega
    rw [negated, hsize] at hsigned
    exact hsigned
  · next hnonnegative =>
    have hsize : (n.natAbs : Int) = n := by omega
    rw [hsize] at hplain
    exact hplain

theorem leads_zero (hends : EndsNumber rest) : Leads ('0' :: '.' :: '0' :: rest) (.float (.finite 0)) rest :=
  @leads_float rest ['0'] ['0'] rest none ⟨by simp, Or.inl rfl⟩ (by simp)
    (exponentPart_none fun c hc => (hends c hc).2.2)
    (fun c hc => ⟨(hends c hc).1, (hends c hc).2.1⟩) (Or.inl (by simp))

/-- A finite number that is a double is read as it is written. -/
theorem value_finite {v : Dyadic} (hproper : (Binary64.finite v).IsProper) (hends : EndsNumber rest)
    (fuel : Nat) : value levels (fuel + 1) ((Binary64.finite v).render.toList ++ rest) =
      .ok (.float (.finite v), rest) := by
  have hpositive : ∀ w : Dyadic, Binary64.IsDouble w.toRat → 0 < w.toRat →
      Leads ((Binary64.shortest w).render.toList ++ rest) (.float (.finite w)) rest := by
    intro w hdouble hw
    obtain ⟨hreads, hdigits⟩ := Binary64.shortest_spec hdouble hw
    obtain ⟨_, _, _, hlaidOut⟩ := exists_layout hdigits
    rw [← hreads]
    exact hlaidOut.leads hends
  have hsign : v < 0 ↔ v.toRat < 0 := by rw [← Dyadic.toRat_lt_toRat_iff, Dyadic.toRat_zero]
  have hzero : v.toRat = 0 ↔ v = 0 := Dyadic.toRat_eq_zero_iff
  rw [Binary64.IsProper] at hproper
  rw [Binary64.render]
  split
  · next hv =>
    subst hv
    exact ((leads_zero hends).value_eq levels fuel).1
  · next hv =>
    have hnonzero : v.toRat ≠ 0 := fun h => hv (hzero.mp h)
    split
    · next hnegative =>
      rw [hsign] at hnegative
      rw [abs_of_neg hnegative, ← Dyadic.toRat_neg] at hproper
      have hread := ((hpositive (-v) hproper (by rw [Dyadic.toRat_neg]; linarith)).value_eq levels fuel).2
      have hnegated : (Binary64.finite (-v)).neg = .finite v := by
        have hother : -v ≠ 0 := by
          rw [Ne, ← Dyadic.toRat_eq_zero_iff, Dyadic.toRat_neg, neg_eq_zero]
          exact hnonzero
        rw [Binary64.neg, if_neg hother, Binary64.finite.injEq, ← Dyadic.toRat_inj, Dyadic.toRat_neg,
          Dyadic.toRat_neg, neg_neg]
      rw [negated, hnegated] at hread
      rw [String.toList_append, List.append_assoc]
      exact hread
    · next hnonnegative =>
      rw [hsign] at hnonnegative
      have hv : 0 < v.toRat := lt_of_le_of_ne (not_lt.mp hnonnegative) (Ne.symm hnonzero)
      rw [abs_of_pos hv] at hproper
      exact ((hpositive v hproper hv).value_eq levels fuel).1

/-- A word is read as what it stands for. -/
theorem value_word {word : String × Scalar} (hword : word ∈ words) (fuel : Nat) :
    value levels (fuel + 1) (word.1.toList ++ rest) = .ok (.scalar word.2, rest) := by
  have hfound : word? (word.1.toList ++ rest) = some (word.2, rest) := by
    simp only [words, List.mem_cons, List.not_mem_nil, or_false] at hword
    rcases hword with rfl | rfl | rfl | rfl | rfl | rfl <;> rfl
  obtain ⟨c, others, hchars, hquote, hbrace, hbracket⟩ : ∃ c others, word.1.toList = c :: others ∧
      c ≠ '"' ∧ c ≠ '\x7b' ∧ c ≠ '[' := by
    simp only [words, List.mem_cons, List.not_mem_nil, or_false] at hword
    rcases hword with rfl | rfl | rfl | rfl | rfl | rfl <;> exact ⟨_, _, rfl, by decide⟩
  rw [hchars, List.cons_append] at hfound ⊢
  rw [value, hfound]
  · rfl
  all_goals
    intro _ h
    cases h
    contradiction

/-- A scalar is read as it is written, from its first character to its last. -/
theorem value_writeScalar (hreadable : IsReadable s) (hends : EndsNumber rest) (fuel : Nat) :
    value levels (fuel + 1) ((writeScalar charset s).toList ++ rest) = .ok (.scalar s, rest) := by
  cases s with
  | null => exact @value_word rest levels ("null", .null) (by simp [words]) fuel
  | bool b =>
    cases b with
    | false => exact @value_word rest levels ("false", .bool false) (by simp [words]) fuel
    | true => exact @value_word rest levels ("true", .bool true) (by simp [words]) fuel
  | int n => exact value_int hreadable hends fuel
  | float x =>
    cases x with
    | nan => exact @value_word rest levels ("NaN", .float .nan) (by simp [words]) fuel
    | infinite negative =>
      cases negative with
      | false => exact @value_word rest levels ("Infinity", .float (.infinite false)) (by simp [words]) fuel
      | true => exact @value_word rest levels ("-Infinity", .float (.infinite true)) (by simp [words]) fuel
    | negZero =>
      have hread := ((leads_zero hends).value_eq levels fuel).2
      rw [negated, Binary64.neg, if_pos rfl] at hread
      rw [writeScalar, writeFloat, Binary64.render]
      · exact hread
      all_goals simp
    | finite v => exact value_finite hreadable hends fuel
  | text text =>
    rw [writeScalar, writeText, String.toList_append, String.toList_append, List.append_assoc,
      List.append_assoc]
    show value levels (fuel + 1) ('"' :: ((String.join (text.toList.map (writeChar charset))).toList ++
      '"' :: rest)) = _
    rw [value, string_of_between (between_writeChars charset text.toList), String.ofList_toList]
    rfl
  | action a => exact hreadable.elim

end Rendering

end Json

end Lineage
