import Lineage.Json.Writer
import Lineage.Proofs.Json.Strings
import Lineage.Proofs.Number.Digits

namespace Lineage.Json

variable {text chars : List Char} {n : Nat}

theorem hex4_hex (hn : n < 0x10000) : hex4 (Text.hex 4 n).toList = some (n, []) := by
  obtain ⟨a, b, c, d, ha, hb, hc, hd, rfl, hdigits⟩ := Text.hex_four hn
  rw [hdigits]
  simp [hex4, Text.hexValue?_digitChar a ha, Text.hexValue?_digitChar b hb,
    Text.hexValue?_digitChar c hc, Text.hexValue?_digitChar d hd]

/-- Characters are no halves of surrogate pairs. -/
theorem toNat_cases (c : Char) : c.toNat < 0xD800 ∨ 0xDFFF < c.toNat ∧ c.toNat < 0x110000 := by
  have hvalid : c.val.toNat.isValidChar := c.valid
  unfold Nat.isValidChar at hvalid
  exact hvalid

/-- A character that is written by a pair of escapes is read from it. -/
theorem between_pair {c : Char} {high low : Nat} (hhigh : isHighSurrogate high = true)
    (hlow : isLowSurrogate low = true)
    (hsum : 0x10000 + (high - 0xD800) * 0x400 + (low - 0xDC00) = c.toNat)
    (hrest : Between text chars) :
    Between (("\\u" ++ Text.hex 4 high ++ "\\u" ++ Text.hex 4 low).toList ++ text) (c :: chars) := by
  have hbounds : high < 0x10000 ∧ low < 0x10000 := by
    simp only [isHighSurrogate, isLowSurrogate, Bool.and_eq_true, decide_eq_true_eq] at hhigh hlow
    omega
  have hread := Between.pair (hex4_hex hbounds.1) hhigh (hex4_hex hbounds.2) hlow hrest
  rw [hsum, Char.ofNat_toNat] at hread
  simpa using hread

/-- A character that is written by its number is read from it. -/
theorem between_numericEscape (c : Char) (hrest : Between text chars) :
    Between ((numericEscape c.toNat).toList ++ text) (c :: chars) := by
  have hvalid := toNat_cases c
  unfold numericEscape
  split
  · next hsmall =>
    have hchar : charOf c.toNat = c := by
      rw [charOf, if_neg, Char.ofNat_toNat]
      simp only [Bool.and_eq_true, decide_eq_true_eq]
      omega
    have hlone : isHighSurrogate c.toNat = true → lowAfter? text = none := by
      simp only [isHighSurrogate, Bool.and_eq_true, decide_eq_true_eq]
      omega
    have hread := Between.unicode (hex4_hex hsmall) hlone hrest
    rw [hchar] at hread
    simpa using hread
  · next hlarge =>
    refine between_pair ?_ ?_ ?_ hrest
    · simp only [isHighSurrogate, Bool.and_eq_true, decide_eq_true_eq]
      omega
    · simp only [isLowSurrogate, Bool.and_eq_true, decide_eq_true_eq]
      omega
    · omega

/-- A character between quotes is read as itself. -/
theorem between_writeChar (charset : Charset) (c : Char) (hrest : Between text chars) :
    Between ((writeChar charset c).toList ++ text) (c :: chars) := by
  have hshort : ∀ {e d : Char}, shortEscape? e = some d → c = d →
      Between ('\\' :: e :: text) (c :: chars) := by
    rintro e d hescape rfl
    exact .short hescape hrest
  simp only [writeChar, beq_iff_eq]
  split
  · next h => simpa using @hshort '"' _ rfl h
  next hquote =>
  split
  · next h => simpa using @hshort '\\' _ rfl h
  next hescape =>
  split
  · next h => simpa using @hshort 'n' _ rfl h
  split
  · next h => simpa using @hshort 'r' _ rfl h
  split
  · next h => simpa using @hshort 't' _ rfl h
  split
  · next h => simpa using @hshort 'b' _ rfl h
  split
  · next h => simpa using @hshort 'f' _ rfl h
  split
  · exact between_numericEscape c hrest
  next hplain =>
  split
  · exact between_numericEscape c hrest
  · simpa using Between.plain hquote hescape (by omega) hrest

/-- What is written between quotes is read as the text that was written. -/
theorem between_writeChars (charset : Charset) (chars : List Char) :
    Between (String.join (chars.map (writeChar charset))).toList chars := by
  induction chars with
  | nil => exact .nil
  | cons c rest ih =>
    rw [List.map_cons, String.join_cons, String.toList_append]
    exact between_writeChar charset c ih

theorem string_of_between (hbetween : Between text chars) (rest : List Char) :
    string (text ++ '"' :: rest) = .ok (String.ofList chars, rest) := by
  have hbody := stringBody_of_between hbetween ((text ++ '"' :: rest).length + 1) rest
    (show text.length < (text ++ '"' :: rest).length + 1 by rw [List.length_append]; omega)
  rw [string, hbody]
  rfl

end Lineage.Json
