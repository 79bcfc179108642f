import Lineage.Config
import Lineage.Proofs.Command.ProperTrees
import Lineage.Proofs.Json.Texts

namespace Lineage

namespace Text

/-- The bytes that a text is written as. -/
def encode (text : String) : List UInt8 :=
  text.toList.flatMap String.utf8EncodeChar

section Decoding

variable {a b c d : UInt8} {rest : List UInt8} {chars : List Char} {position : Nat}

theorem isContinuation_iff : isContinuation b = true ↔ 0x80 ≤ b.toNat ∧ b.toNat ≤ 0xBF := by
  simp [isContinuation, UInt8.le_iff_toNat_le]

theorem isSecond_iff : isSecond a b = true ↔ isContinuation b = true ∧
    (a.toNat = 0xE0 → 0xA0 ≤ b.toNat) ∧ (a.toNat = 0xED → b.toNat < 0xA0) ∧
    (a.toNat = 0xF0 → 0x90 ≤ b.toNat) ∧ (a.toNat = 0xF4 → b.toNat < 0x90) := by
  simp only [isSecond, Bool.and_eq_true, beq_iff_eq, UInt8.le_iff_toNat_le, UInt8.lt_iff_toNat_lt,
    ← UInt8.toNat_inj]
  refine and_congr_right fun _ => ?_
  simp
  split_ifs <;> simp_all
  tauto

theorem decodeFrom_one (ha : a.toNat < 0x80) (hrest : decodeFrom (position + 1) rest = .ok chars) :
    decodeFrom position (a :: rest) = .ok (Char.ofNat a.toNat :: chars) := by
  have hsmall : a < 0x80 := UInt8.lt_iff_toNat_lt.mpr ha
  rw [decodeFrom.eq_def]
  simp [hsmall, hrest, bind, Except.bind, pure, Except.pure]

theorem decodeFrom_two (hlow : 0xC2 ≤ a.toNat) (hhigh : a.toNat < 0xE0)
    (hb : isSecond a b = true) (hrest : decodeFrom (position + 2) rest = .ok chars) :
    decodeFrom position (a :: b :: rest) =
      .ok (Char.ofNat (a.toNat % 0x20 * 0x40 + low b) :: chars) := by
  have hone : ¬ a < 0x80 := UInt8.lt_iff_toNat_lt.not.mpr (by simp; omega)
  have hfirst : (a < 0xC2 || 0xF4 < a) = false := by
    simp [UInt8.le_iff_toNat_le]
    omega
  have htwo : a < 0xE0 := UInt8.lt_iff_toNat_lt.mpr hhigh
  rw [decodeFrom.eq_def]
  simp [hone, hfirst, htwo, hb, hrest, bind, Except.bind, pure, Except.pure]

theorem decodeFrom_three (hlow : 0xE0 ≤ a.toNat) (hhigh : a.toNat < 0xF0)
    (hb : isSecond a b = true) (hc : isContinuation c = true)
    (hrest : decodeFrom (position + 3) rest = .ok chars) :
    decodeFrom position (a :: b :: c :: rest) =
      .ok (Char.ofNat ((a.toNat % 0x10 * 0x40 + low b) * 0x40 + low c) :: chars) := by
  have hone : ¬ a < 0x80 := UInt8.lt_iff_toNat_lt.not.mpr (by simp; omega)
  have hfirst : (a < 0xC2 || 0xF4 < a) = false := by
    simp [UInt8.le_iff_toNat_le]
    omega
  have htwo : ¬ a < 0xE0 := UInt8.lt_iff_toNat_lt.not.mpr (by simp; omega)
  have hthree : a < 0xF0 := UInt8.lt_iff_toNat_lt.mpr hhigh
  rw [decodeFrom.eq_def]
  simp [hone, hfirst, htwo, hthree, hb, hc, hrest, bind, Except.bind, pure, Except.pure]

theorem decodeFrom_four (hlow : 0xF0 ≤ a.toNat) (hhigh : a.toNat ≤ 0xF4)
    (hb : isSecond a b = true) (hc : isContinuation c = true) (hd : isContinuation d = true)
    (hrest : decodeFrom (position + 4) rest = .ok chars) :
    decodeFrom position (a :: b :: c :: d :: rest) =
      .ok (Char.ofNat (((a.toNat % 0x8 * 0x40 + low b) * 0x40 + low c) * 0x40 + low d) :: chars) := by
  have hone : ¬ a < 0x80 := UInt8.lt_iff_toNat_lt.not.mpr (by simp; omega)
  have hfirst : (a < 0xC2 || 0xF4 < a) = false := by
    simp [UInt8.le_iff_toNat_le]
    omega
  have htwo : ¬ a < 0xE0 := UInt8.lt_iff_toNat_lt.not.mpr (by simp; omega)
  have hthree : ¬ a < 0xF0 := UInt8.lt_iff_toNat_lt.not.mpr (by simp; omega)
  rw [decodeFrom.eq_def]
  simp [hone, hfirst, htwo, hthree, hb, hc, hd, hrest, bind, Except.bind, pure, Except.pure]

theorem toNat_byte {n : Nat} (hn : n < 0x100) : (UInt8.ofNat n).toNat = n :=
  Nat.mod_eq_of_lt hn

theorem decodeFrom_encodeChar (char : Char) (position : Nat)
    (hrest : ∀ position, decodeFrom position rest = .ok chars) :
    decodeFrom position (String.utf8EncodeChar char ++ rest) = .ok (char :: chars) := by
  obtain ⟨v, hv⟩ : ∃ v, char.val.toNat = v := ⟨_, rfl⟩
  have hvalid : v < 0xD800 ∨ 0xDFFF < v ∧ v < 0x110000 := hv ▸ Json.toNat_cases char
  have hchar : char = Char.ofNat v := by rw [← hv]; exact (Char.ofNat_toNat char).symm
  unfold String.utf8EncodeChar
  simp only [hv]
  split_ifs with hone htwo hthree
  · have ha := @toNat_byte v (by omega)
    rw [List.singleton_append, decodeFrom_one (by omega) (hrest _), ha, hchar]
  · have ha := @toNat_byte (v / 64 % 32 + 192) (by omega)
    have hb := @toNat_byte (v % 64 + 128) (by omega)
    show decodeFrom position (_ :: _ :: rest) = _
    rw [decodeFrom_two (by omega) (by omega) (by rw [isSecond_iff, isContinuation_iff]; omega)
      (hrest _), low, ha, hb, hchar]
    congr 3
    omega
  · have ha := @toNat_byte (v / 4096 % 16 + 224) (by omega)
    have hb := @toNat_byte (v / 64 % 64 + 128) (by omega)
    have hc := @toNat_byte (v % 64 + 128) (by omega)
    show decodeFrom position (_ :: _ :: _ :: rest) = _
    rw [decodeFrom_three (by omega) (by omega) (by rw [isSecond_iff, isContinuation_iff]; omega)
      (by rw [isContinuation_iff]; omega) (hrest _), low, low, ha, hb, hc, hchar]
    congr 3
    omega
  · have ha := @toNat_byte (v / 262144 % 8 + 240) (by omega)
    have hb := @toNat_byte (v / 4096 % 64 + 128) (by omega)
    have hc := @toNat_byte (v / 64 % 64 + 128) (by omega)
    have hd := @toNat_byte (v % 64 + 128) (by omega)
    show decodeFrom position (_ :: _ :: _ :: _ :: rest) = _
    rw [decodeFrom_four (by omega) (by omega) (by rw [isSecond_iff, isContinuation_iff]; omega)
      (by rw [isContinuation_iff]; omega) (by rw [isContinuation_iff]; omega) (hrest _), low, low,
      low, ha, hb, hc, hd, hchar]
    congr 3
    omega

/-- Every text is read from the bytes that it is written as. -/
theorem decode_encode (text : String) : decode (encode text) = .ok text := by
  have hchars : ∀ (chars : List Char) (position : Nat),
      decodeFrom position (chars.flatMap String.utf8EncodeChar) = .ok chars := by
    intro chars
    induction chars with
    | nil => exact fun _ => rfl
    | cons char chars ih => exact fun position => decodeFrom_encodeChar char position ih
  rw [decode, encode, hchars]
  exact congrArg Except.ok (String.ofList_toList)

end Decoding

end Text

namespace Json

/-- So many figures in a row stand among the characters, more than an integer
    may have. -/
def HasLong (digits : Nat) (cs : List Char) : Prop :=
  Numeral.maxDigits < digits ∧
    ∃ figures, figures.length = digits ∧ (∀ c ∈ figures, c.isDigit = true) ∧ figures <:+: cs

/-- A bracket or brace that a list or mapping opens with. -/
def isOpening (c : Char) : Bool :=
  c == '[' || c == '\x7b'

/-- More lists and mappings open among the characters than may nest. -/
def IsDeep (levels : Nat) (cs : List Char) : Prop :=
  levels < cs.countP isOpening

/-- What stops reading stands among the characters, if it is not their form. -/
def Stop.Occurs (levels : Nat) (cs : List Char) : Stop → Prop
  | .flaw _ _ => True
  | .longInteger digits => HasLong digits cs
  | .tooDeep _ => IsDeep levels cs

section Parts

variable {cs whole fraction rest after : List Char} {exponent : Option Int} {levels digits : Nat}
  {datum : Datum} {size : Scalar} {text : String} {stop : Stop}

theorem HasLong.of_suffix (hlong : HasLong digits rest) (hsuffix : rest <:+ cs) :
    HasLong digits cs := by
  obtain ⟨hmany, figures, hlength, hfigures, hinfix⟩ := hlong
  exact ⟨hmany, figures, hlength, hfigures, hinfix.trans hsuffix.isInfix⟩

theorem IsDeep.of_suffix (hdeep : IsDeep levels rest) (hsuffix : rest <:+ cs) :
    IsDeep levels cs :=
  Nat.lt_of_lt_of_le hdeep hsuffix.sublist.countP_le

theorem Stop.Occurs.of_suffix (hoccurs : stop.Occurs levels rest) (hsuffix : rest <:+ cs) :
    stop.Occurs levels cs := by
  cases stop with
  | flaw flaw left => trivial
  | longInteger digits => exact HasLong.of_suffix hoccurs hsuffix
  | tooDeep descending => exact IsDeep.of_suffix hoccurs hsuffix

/-- What stops reading inside brackets occurs one level further up as well. -/
theorem Stop.Occurs.opened {c : Char} (hoccurs : stop.Occurs levels rest) (hsuffix : rest <:+ cs)
    (hopens : isOpening c = true) : stop.Occurs (levels + 1) (c :: cs) := by
  cases stop with
  | flaw flaw left => trivial
  | longInteger digits => exact HasLong.of_suffix hoccurs (hsuffix.trans (List.suffix_cons _ _))
  | tooDeep descending =>
    have hdeep : IsDeep levels cs := IsDeep.of_suffix hoccurs hsuffix
    show _ < List.countP _ (c :: cs)
    rw [List.countP_cons_of_pos hopens]
    exact Nat.succ_lt_succ hdeep

theorem skipBlanks_suffix (cs : List Char) : skipBlanks cs <:+ cs :=
  List.dropWhile_suffix _

/-- What is left after blanks and the character that follows them. -/
theorem suffix_of_skipBlanks {c : Char} (hskip : skipBlanks cs = c :: rest) : rest <:+ cs :=
  (List.suffix_cons c rest).trans (hskip ▸ skipBlanks_suffix cs)

theorem integerPart_cases (hpart : integerPart cs = some (whole, rest)) :
    cs = whole ++ rest ∧ ∀ c ∈ whole, c.isDigit = true := by
  cases cs with
  | nil => cases hpart
  | cons c others =>
    simp only [integerPart] at hpart
    split at hpart
    · next hzero =>
      cases hpart
      obtain rfl : c = '0' := by simpa using hzero
      exact ⟨rfl, by simp [Char.isDigit]⟩
    · split at hpart
      · next hdigit =>
        cases hpart
        refine ⟨by rw [List.cons_append, List.takeWhile_append_dropWhile], ?_⟩
        rw [List.forall_mem_cons]
        exact ⟨hdigit, List.all_eq_true.mp List.all_takeWhile⟩
      · cases hpart

theorem fractionPart_suffix (cs : List Char) : (fractionPart cs).2 <:+ cs := by
  unfold fractionPart
  split
  · split
    · exact List.suffix_refl _
    · exact (List.dropWhile_suffix _).trans (List.suffix_cons _ _)
  · exact List.suffix_refl _

theorem splitSign_suffix (cs : List Char) : (Numeral.splitSign cs).2 <:+ cs := by
  unfold Numeral.splitSign
  split
  · exact List.suffix_cons _ _
  · exact List.suffix_cons _ _
  · exact List.suffix_refl _

theorem exponentPart_suffix (cs : List Char) : (exponentPart cs).2 <:+ cs := by
  unfold exponentPart
  split
  · exact List.suffix_refl _
  · split
    · simp only
      split
      · exact List.suffix_refl _
      · exact ((List.dropWhile_suffix _).trans (splitSign_suffix _)).trans (List.suffix_cons _ _)
    · exact List.suffix_refl _

/-- Only digits before the point can be too many. -/
theorem magnitude_long (hsize : magnitude whole fraction exponent = .error stop) :
    stop = .longInteger whole.length ∧ Numeral.maxDigits < whole.length := by
  unfold magnitude at hsize
  simp only at hsize
  split at hsize
  · split at hsize
    · next hmany =>
      cases hsize
      exact ⟨rfl, hmany⟩
    · cases hsize
  · cases hsize

/-- A number is read from the characters after its sign. -/
theorem exists_unsigned (cs : List Char) : ∃ negative unsigned, unsigned <:+ cs ∧
    number cs = match integerPart unsigned with
      | none => fail .value cs
      | some (whole, rest) =>
        magnitude whole (fractionPart rest).1 (exponentPart (fractionPart rest).2).1 >>= fun size =>
          pure (.scalar (if negative = true then negated size else size),
            (exponentPart (fractionPart rest).2).2) := by
  unfold number
  split
  next negative unsigned hsplit =>
  refine ⟨negative, unsigned, ?_, rfl⟩
  split at hsplit
  · cases hsplit
    exact List.suffix_cons _ _
  · cases hsplit
    exact List.suffix_refl _

theorem number_suffix (hread : number cs = .ok (datum, rest)) : rest <:+ cs := by
  obtain ⟨negative, unsigned, hsuffix, hnumber⟩ := exists_unsigned cs
  rw [hnumber] at hread
  split at hread
  · cases hread
  · next whole after hpart =>
    obtain ⟨size, _, hdone⟩ := bind_eq_ok_iff.mp hread
    cases hdone
    have hafter : after <:+ unsigned := (integerPart_cases hpart).1 ▸ List.suffix_append whole after
    exact ((exponentPart_suffix _).trans (fractionPart_suffix _)).trans (hafter.trans hsuffix)

theorem number_occurs (hread : number cs = .error stop) : stop.Occurs levels cs := by
  obtain ⟨negative, unsigned, hsuffix, hnumber⟩ := exists_unsigned cs
  rw [hnumber] at hread
  split at hread
  · cases hread
    trivial
  · next whole after hpart =>
    obtain ⟨rfl, hfigures⟩ := integerPart_cases hpart
    rcases bind_eq_error_iff.mp hread with hsize | ⟨size, _, hdone⟩
    · obtain ⟨rfl, hmany⟩ := magnitude_long hsize
      exact ⟨hmany, whole, rfl, hfigures,
        (List.prefix_append whole after).isInfix.trans hsuffix.isInfix⟩
    · cases hdone

theorem word?_suffix (hword : word? cs = some (size, rest)) : rest <:+ cs := by
  obtain ⟨word, _, hword⟩ := List.exists_of_findSome?_eq_some hword
  simp only at hword
  split at hword
  · cases hword
    exact List.drop_suffix _ _
  · cases hword

theorem string_suffix (hread : string cs = .ok (text, rest)) : rest <:+ cs := by
  obtain ⟨⟨chars, final⟩, hbody, hdone⟩ := bind_eq_ok_iff.mp hread
  cases hdone
  obtain ⟨written, rfl, _⟩ := between_of_stringBody hbody
  exact (List.suffix_cons _ _).trans (List.suffix_append _ _)

/-- Nothing but its form is wrong with a string. -/
theorem unicodeEscape_occurs (hread : unicodeEscape cs = .error stop) :
    stop.Occurs levels after := by
  unfold unicodeEscape at hread
  simp only [throw, throwThe, MonadExceptOf.throw, pure, Except.pure] at hread
  repeat' split at hread
  all_goals
    cases hread
    try trivial

theorem stringBody_occurs {opening fuel : Nat} (hread : stringBody opening fuel cs = .error stop) :
    stop.Occurs levels after := by
  fun_induction stringBody opening fuel cs with
  | case1 | case2 | case4 | case6 | case8 =>
    cases hread
    trivial
  | case3 => cases hread
  | case5 _ c _ hescape after ih =>
    rcases bind_eq_error_iff.mp hread with hescape | ⟨⟨char, rest⟩, _, hmore⟩
    · exact unicodeEscape_occurs hescape
    · rcases bind_eq_error_iff.mp hmore with hrest | ⟨_, _, hdone⟩
      · exact ih rest hrest
      · cases hdone
  | case7 _ c _ hescape e after _ char hshort ih =>
    rcases bind_eq_error_iff.mp hread with hrest | ⟨_, _, hdone⟩
    · exact ih hrest
    · cases hdone
  | case9 _ c after hquote hescape hcontrol ih =>
    rcases bind_eq_error_iff.mp hread with hrest | ⟨_, _, hdone⟩
    · exact ih hrest
    · cases hdone

theorem string_occurs (hread : string cs = .error stop) : stop.Occurs levels after := by
  rcases bind_eq_error_iff.mp hread with hbody | ⟨_, _, hdone⟩
  · exact stringBody_occurs hbody
  · cases hdone

end Parts

/-- What is left after reading under a limit of the recursion is the end of what
    there was. -/
structure ReadsOn (fuel : Nat) : Prop where
  value : ∀ {levels cs datum rest}, value levels fuel cs = .ok (datum, rest) → rest <:+ cs
  elements : ∀ {levels cs items rest}, elements levels fuel cs = .ok (items, rest) → rest <:+ cs
  members : ∀ {levels fields cs later rest},
    members levels fuel fields cs = .ok (later, rest) → rest <:+ cs

/-- Where reading under a limit of the recursion stops for another reason than
    the form, the reason is there. -/
structure FindsStop (fuel : Nat) : Prop where
  value : ∀ {levels cs stop}, value levels fuel cs = .error stop → stop.Occurs levels cs
  elements : ∀ {levels cs stop}, elements levels fuel cs = .error stop → stop.Occurs levels cs
  members : ∀ {levels fields cs stop},
    members levels fuel fields cs = .error stop → stop.Occurs levels cs

section Steps

variable {levels fuel : Nat} {cs rest : List Char} {datum : Datum} {items : List Datum}
  {fields later : List (String × Datum)} {stop : Stop}

section ReadsOn

variable (hreads : ReadsOn fuel)

include hreads

theorem ReadsOn.value_succ (hvalue : Json.value levels (fuel + 1) cs = .ok (datum, rest)) :
    rest <:+ cs := by
  unfold Json.value at hvalue
  split at hvalue
  · obtain ⟨⟨text, after⟩, hstring, hdone⟩ := bind_eq_ok_iff.mp hvalue
    cases hdone
    exact (string_suffix hstring).trans (List.suffix_cons _ _)
  · split at hvalue
    · cases hvalue
    · split at hvalue
      · next hskip =>
        cases hvalue
        exact (suffix_of_skipBlanks hskip).trans (List.suffix_cons _ _)
      · obtain ⟨⟨fields, after⟩, hmembers, hdone⟩ := bind_eq_ok_iff.mp hvalue
        cases hdone
        exact ((hreads.members hmembers).trans (skipBlanks_suffix _)).trans (List.suffix_cons _ _)
  · split at hvalue
    · cases hvalue
    · split at hvalue
      · next hskip =>
        cases hvalue
        exact (suffix_of_skipBlanks hskip).trans (List.suffix_cons _ _)
      · obtain ⟨⟨items, after⟩, helements, hdone⟩ := bind_eq_ok_iff.mp hvalue
        cases hdone
        exact ((hreads.elements helements).trans (skipBlanks_suffix _)).trans (List.suffix_cons _ _)
  · split at hvalue
    · next hword =>
      cases hvalue
      exact word?_suffix hword
    · exact number_suffix hvalue

theorem ReadsOn.elements_succ (helements : Json.elements levels (fuel + 1) cs = .ok (items, rest)) :
    rest <:+ cs := by
  unfold Json.elements at helements
  obtain ⟨⟨item, after⟩, hitem, hnext⟩ := bind_eq_ok_iff.mp helements
  have hafter := hreads.value hitem
  simp only at hnext
  split at hnext
  · next hskip =>
    cases hnext
    exact (suffix_of_skipBlanks hskip).trans hafter
  · next hskip =>
    obtain ⟨⟨others, final⟩, hothers, hdone⟩ := bind_eq_ok_iff.mp hnext
    cases hdone
    exact (((hreads.elements hothers).trans (skipBlanks_suffix _)).trans
      (suffix_of_skipBlanks hskip)).trans hafter
  · cases hnext

theorem ReadsOn.members_succ
    (hmembers : Json.members levels (fuel + 1) fields cs = .ok (later, rest)) : rest <:+ cs := by
  unfold Json.members at hmembers
  split at hmembers
  · obtain ⟨⟨key, after⟩, hkey, hcolon⟩ := bind_eq_ok_iff.mp hmembers
    have hafter := (string_suffix hkey).trans (List.suffix_cons '"' _)
    simp only at hcolon
    split at hcolon
    · next hskip =>
      have hstart := (suffix_of_skipBlanks hskip).trans hafter
      obtain ⟨⟨item, final⟩, hitem, hnext⟩ := bind_eq_ok_iff.mp hcolon
      have hfinal := ((hreads.value hitem).trans (skipBlanks_suffix _)).trans hstart
      simp only at hnext
      split at hnext
      · next hbrace =>
        cases hnext
        exact (suffix_of_skipBlanks hbrace).trans hfinal
      · next hcomma =>
        exact (((hreads.members hnext).trans (skipBlanks_suffix _)).trans
          (suffix_of_skipBlanks hcomma)).trans hfinal
      · cases hnext
    · cases hcolon
  · cases hmembers

end ReadsOn

section FindsStop

variable (hreads : ReadsOn fuel) (hfinds : FindsStop fuel)

include hfinds

theorem FindsStop.value_succ (hvalue : Json.value levels (fuel + 1) cs = .error stop) :
    stop.Occurs levels cs := by
  unfold Json.value at hvalue
  split at hvalue
  · rcases bind_eq_error_iff.mp hvalue with hstring | ⟨_, _, hdone⟩
    · exact string_occurs hstring
    · cases hdone
  · split at hvalue
    · cases hvalue
      exact Nat.lt_of_lt_of_eq (Nat.succ_pos _) (List.countP_cons_of_pos rfl).symm
    · split at hvalue
      · cases hvalue
      · rcases bind_eq_error_iff.mp hvalue with hmembers | ⟨_, _, hdone⟩
        · exact (hfinds.members hmembers).opened (skipBlanks_suffix _) rfl
        · cases hdone
  · split at hvalue
    · cases hvalue
      exact Nat.lt_of_lt_of_eq (Nat.succ_pos _) (List.countP_cons_of_pos rfl).symm
    · split at hvalue
      · cases hvalue
      · rcases bind_eq_error_iff.mp hvalue with helements | ⟨_, _, hdone⟩
        · exact (hfinds.elements helements).opened (skipBlanks_suffix _) rfl
        · cases hdone
  · split at hvalue
    · cases hvalue
    · exact number_occurs hvalue

include hreads

theorem FindsStop.elements_succ (helements : Json.elements levels (fuel + 1) cs = .error stop) :
    stop.Occurs levels cs := by
  unfold Json.elements at helements
  rcases bind_eq_error_iff.mp helements with hitem | ⟨⟨item, after⟩, hitem, hnext⟩
  · exact hfinds.value hitem
  · have hafter := hreads.value hitem
    simp only at hnext
    split at hnext
    · cases hnext
    · next hskip =>
      rcases bind_eq_error_iff.mp hnext with hothers | ⟨_, _, hdone⟩
      · exact (hfinds.elements hothers).of_suffix
          (((skipBlanks_suffix _).trans (suffix_of_skipBlanks hskip)).trans hafter)
      · cases hdone
    · cases hnext
      trivial

theorem FindsStop.members_succ
    (hmembers : Json.members levels (fuel + 1) fields cs = .error stop) :
    stop.Occurs levels cs := by
  unfold Json.members at hmembers
  split at hmembers
  · rcases bind_eq_error_iff.mp hmembers with hkey | ⟨⟨key, after⟩, hkey, hcolon⟩
    · exact string_occurs hkey
    · have hafter := (string_suffix hkey).trans (List.suffix_cons '"' _)
      simp only at hcolon
      split at hcolon
      · next hskip =>
        have hstart := (skipBlanks_suffix _).trans ((suffix_of_skipBlanks hskip).trans hafter)
        rcases bind_eq_error_iff.mp hcolon with hitem | ⟨⟨item, final⟩, hitem, hnext⟩
        · exact (hfinds.value hitem).of_suffix hstart
        · have hfinal := (hreads.value hitem).trans hstart
          simp only at hnext
          split at hnext
          · cases hnext
          · next hcomma =>
            exact (hfinds.members hnext).of_suffix
              (((skipBlanks_suffix _).trans (suffix_of_skipBlanks hcomma)).trans hfinal)
          · cases hnext
            trivial
      · cases hcolon
        trivial
  · cases hmembers
    trivial

end FindsStop

theorem readsOn (fuel : Nat) : ReadsOn fuel := by
  induction fuel with
  | zero => exact ⟨nofun, nofun, nofun⟩
  | succ fuel ih => exact ⟨ih.value_succ, ih.elements_succ, ih.members_succ⟩

theorem findsStop (fuel : Nat) : FindsStop fuel := by
  induction fuel with
  | zero =>
    refine ⟨?_, ?_, ?_⟩
    all_goals
      intros
      next hread =>
        cases hread
        trivial
  | succ fuel ih =>
    have hreads := readsOn fuel
    exact ⟨ih.value_succ, ih.elements_succ hreads, ih.members_succ hreads⟩

end Steps

section Documents

variable {levels : Nat} {text : String} {stop : Stop}

theorem document_occurs {cs : List Char} (hread : document levels cs = .error stop) :
    stop.Occurs levels cs := by
  unfold document at hread
  split at hread
  · cases hread
    trivial
  · rcases bind_eq_error_iff.mp hread with hvalue | ⟨_, _, hend⟩
    · exact ((findsStop _).value hvalue).of_suffix (skipBlanks_suffix _)
    · simp only at hend
      split at hend
      · cases hend
      · cases hend
        trivial

/-- A document that cannot be read for an integer that is too long has one. -/
theorem hasLong_of_parse {digits : Nat} (hparse : parse text levels = .error (.longInteger digits)) :
    HasLong digits text.toList := by
  unfold parse at hparse
  simp only at hparse
  split at hparse <;> cases hparse
  next hdocument => exact document_occurs hdocument

/-- A document that cannot be read for its depth opens that many levels. -/
theorem isDeep_of_parse {descending : Descending}
    (hparse : parse text levels = .error (.tooDeep descending)) : IsDeep levels text.toList := by
  unfold parse at hparse
  simp only at hparse
  split at hparse <;> cases hparse
  next hdocument => exact document_occurs hdocument

end Documents

/-- An integer of too many figures is no value. -/
theorem value_ones {n : Nat} (hn : Numeral.maxDigits < n) (levels fuel : Nat) (rest : List Char) :
    value levels (fuel + 1) (List.replicate n '1' ++ '\x7d' :: rest) = .error (.longInteger n) := by
  have hnumber := number_ones hn rest
  obtain ⟨ones, hones⟩ : ∃ ones, List.replicate n '1' ++ '\x7d' :: rest = '1' :: ones := by
    obtain ⟨less, rfl⟩ : ∃ less, n = less + 1 := ⟨n - 1, by omega⟩
    exact ⟨_, rfl⟩
  rw [hones] at hnumber ⊢
  simp only [value, hnumber, word?]
  rfl

end Json

namespace Config

/-- A text as it is read from the bytes that it is written as. -/
def plainText (text : String) : String :=
  String.ofList (Text.unifyNewlines text.toList)

/-- A configuration whose values are among those that they may be: a depth that
    is null or not negative, the name of a format and the name of a level. -/
structure IsSound (config : Config) : Prop where
  depth : config.toFields.lookup "max_depth" = some .null ∨
    ∃ depth : Int, 0 ≤ depth ∧ config.toFields.lookup "max_depth" = some (.int depth)
  format : ∃ name ∈ ["text", "json"], config.toFields.lookup "output_format" = some (.text name)
  level : ∃ name ∈ ["DEBUG", "INFO", "WARNING", "ERROR", "CRITICAL"],
    config.toFields.lookup "log_level" = some (.text name)

/-- A file that is either accepted or refused. One that is accepted gives the
    same configuration when it is validated and when it is loaded. One that is
    refused gives a reason, which loading complains of. -/
inductive Settled (path : String) (content : Option (List UInt8)) (levels : Nat) : Prop where
  | accepted {config : Config} (hsound : config.IsSound)
      (hvalidate : validate path content levels = .ok (.ok config))
      (hload : load path content levels = .ok config)
  | refused {message : String} (hmessage : message ≠ "")
      (hvalidate : validate path content levels = .ok (.error message))
      (hload : load path content levels = .error (.of (.complaint
        ⟨.config, message, some "CONFIG_ERROR", some path, .mapping []⟩)))

section Loading

variable {path text message : String} {content : Option (List UInt8)} {levels : Nat}
  {config : Config} {fields : List (String × Datum)} {fault : Fault}

theorem isSound (config : Config) : config.IsSound where
  depth := by
    obtain ⟨_, depth, _, _, _⟩ := config
    cases depth with
    | none => exact Or.inl rfl
    | some depth => exact Or.inr ⟨depth, Int.natCast_nonneg depth, rfl⟩
  format := by
    obtain ⟨_, _, _, format, _⟩ := config
    cases format
    · exact ⟨"text", by simp, rfl⟩
    · exact ⟨"json", by simp, rfl⟩
  level := by
    obtain ⟨_, _, _, _, level⟩ := config
    refine ⟨severityName level, ?_, rfl⟩
    cases level <;> simp [severityName]

theorem Settled.of_ok (hvalidate : validate path content levels = .ok (.ok config)) :
    Settled path content levels := by
  refine .accepted config.isSound hvalidate ?_
  unfold load
  rw [hvalidate]
  rfl

theorem Settled.of_reason (hvalidate : validate path content levels = .ok (.error message))
    (hmessage : message ≠ "") : Settled path content levels := by
  refine .refused hmessage hvalidate ?_
  unfold load
  rw [hvalidate]
  rfl

/-- What makes validation fail makes loading fail. -/
theorem load_of_fault (hvalidate : validate path content levels = .error fault) :
    load path content levels = .error fault := by
  unfold load
  rw [hvalidate]
  rfl

/-- A file with a text in it is validated by what the text says. -/
theorem validate_encode (path text : String) (levels : Nat) :
    validate path (some (Text.encode text)) levels = ofText (plainText text) levels := by
  have hread : readTextFile (Text.encode text) = .ok (plainText text) := by
    unfold readTextFile
    rw [Text.decode_encode]
    rfl
  show readTextFile (Text.encode text) >>= (ofText · levels) = _
  rw [hread]
  rfl

/-- An object is accepted if its fields make a configuration. -/
theorem ofText_of_fields (hparse : Json.parse text levels = .ok (.mapping fields)) :
    ofText text levels = match ofFields fields with
      | .ok config => .ok (.ok config)
      | .error complaints => .ok (.error ("Validation error: " ++ complaintsMessage complaints)) := by
  unfold ofText readDocument
  rw [hparse]
  show (match ofFields fields with | .ok _ => _ | .error _ => _) = _
  cases ofFields fields <;> rfl

theorem ofText_of_fault (hread : readDocument text levels = .error fault) :
    ofText text levels = .error fault := by
  unfold ofText
  rw [hread]
  rfl

theorem append_ne_empty {first second : String} (hfirst : first ≠ "") : first ++ second ≠ "" := by
  intro hempty
  exact hfirst (String.append_eq_empty_iff.mp hempty).1

/-- What a text can come to: it is accepted for the fields of its object, it is
    refused for a reason, or it fails for an integer that is too long or for its
    depth. -/
theorem ofText_cases (text : String) (levels : Nat) :
    (∃ fields config, Json.parse text levels = .ok (.mapping fields) ∧
        ofFields fields = .ok config ∧ ofText text levels = .ok (.ok config)) ∨
      (∃ message, message ≠ "" ∧ ofText text levels = .ok (.error message)) ∨
      (∃ digits, Json.HasLong digits text.toList ∧
        ofText text levels = .error (.of (.longInteger digits))) ∨
      ∃ descending, Json.IsDeep levels text.toList ∧
        ofText text levels = .error (.of (.tooDeep descending)) := by
  cases hparse : Json.parse text levels with
  | ok datum =>
    by_cases hobject : ∃ fields, datum = .mapping fields
    · obtain ⟨fields, rfl⟩ := hobject
      have htext := ofText_of_fields hparse
      cases hfields : ofFields fields with
      | ok config =>
        rw [hfields] at htext
        exact Or.inl ⟨fields, config, rfl, hfields, htext⟩
      | error complaints =>
        rw [hfields] at htext
        exact Or.inr (Or.inl ⟨_, append_ne_empty (by simp), htext⟩)
    · have htext : ofText text levels =
          .ok (.error "Configuration root must be a JSON object") := by
        unfold ofText readDocument
        rw [hparse]
        cases datum with
        | mapping fields => exact (hobject ⟨fields, rfl⟩).elim
        | _ => rfl
      exact Or.inr (Or.inl ⟨_, by simp, htext⟩)
  | error error =>
    cases error with
    | malformed flaw line column position =>
      have htext : ofText text levels = .ok (.error ("Invalid JSON: " ++
          (Json.Error.malformed flaw line column position).message)) := by
        unfold ofText readDocument
        rw [hparse]
        rfl
      exact Or.inr (Or.inl ⟨_, append_ne_empty (by simp), htext⟩)
    | longInteger digits =>
      exact Or.inr (Or.inr (Or.inl ⟨digits, Json.hasLong_of_parse hparse,
        ofText_of_fault (Command.readDocument_of_long hparse)⟩))
    | tooDeep descending =>
      exact Or.inr (Or.inr (Or.inr ⟨descending, Json.isDeep_of_parse hparse,
        ofText_of_fault (Command.readDocument_of_deep hparse)⟩))

/-- A text is accepted if it is an object whose fields make the configuration. -/
theorem ofText_eq_ok_iff : ofText text levels = .ok (.ok config) ↔
    ∃ fields, Json.parse text levels = .ok (.mapping fields) ∧ ofFields fields = .ok config := by
  constructor
  · intro haccepted
    rcases ofText_cases text levels with ⟨fields, found, hparse, hfields, htext⟩ | ⟨_, _, htext⟩ |
      ⟨_, _, htext⟩ | ⟨_, _, htext⟩
    · rw [haccepted] at htext
      cases htext
      exact ⟨fields, hparse, hfields⟩
    all_goals
      rw [haccepted] at htext
      cases htext
  · rintro ⟨fields, hparse, hfields⟩
    rw [ofText_of_fields hparse, hfields]

end Loading

/-- Loading a configuration settles whether it is one: a file that is missing is
    refused, and a file with any text in it is accepted or refused, and accepted
    if the text is an object whose fields make a configuration. Only where it has
    an integer with too many digits, or opens more levels than the interpreter may
    go down, validating and loading fail. -/
theorem loading_settles (path text : String) (levels : Nat) :
    Settled path none levels ∧
      (∀ config, validate path (some (Text.encode text)) levels = .ok (.ok config) ↔
        ∃ fields, Json.parse (plainText text) levels = .ok (.mapping fields) ∧
          ofFields fields = .ok config) ∧
      (Settled path (some (Text.encode text)) levels ∨
        (∃ digits, Json.HasLong digits (plainText text).toList ∧
          validate path (some (Text.encode text)) levels = .error (.of (.longInteger digits)) ∧
          load path (some (Text.encode text)) levels = .error (.of (.longInteger digits))) ∨
        ∃ descending, Json.IsDeep levels (plainText text).toList ∧
          validate path (some (Text.encode text)) levels = .error (.of (.tooDeep descending)) ∧
          load path (some (Text.encode text)) levels = .error (.of (.tooDeep descending))) := by
  have hvalidate := validate_encode path text levels
  refine ⟨.of_reason rfl (append_ne_empty (by simp)), fun config => ?_, ?_⟩
  · rw [hvalidate, ofText_eq_ok_iff]
  · rcases ofText_cases (plainText text) levels with ⟨_, config, _, _, htext⟩ |
      ⟨message, hmessage, htext⟩ | ⟨digits, hlong, htext⟩ | ⟨descending, hdeep, htext⟩
    · exact Or.inl (.of_ok (hvalidate.trans htext))
    · exact Or.inl (.of_reason (hvalidate.trans htext) hmessage)
    · have hfault := hvalidate.trans htext
      exact Or.inr (Or.inl ⟨digits, hlong, hfault, load_of_fault hfault⟩)
    · have hfault := hvalidate.trans htext
      exact Or.inr (Or.inr ⟨descending, hdeep, hfault, load_of_fault hfault⟩)

section Documents

/-- A configuration with a depth of so many digits. -/
def fathoms (digits : Nat) : List Char :=
  '\x7b' :: '"' :: ("max_depth".toList ++ '"' :: ':' :: (List.replicate digits '1' ++ ['\x7d']))

theorem parse_fathoms {n : Nat} (hn : Numeral.maxDigits < n) (levels : Nat) :
    Json.parse (String.ofList (fathoms n)) (levels + 1) = .error (.longInteger n) := by
  obtain ⟨fuel, hfuel⟩ : ∃ fuel, 2 * (fathoms n).length + 2 = fuel + 3 :=
    ⟨2 * (fathoms n).length - 1, by simp only [fathoms, List.length_cons]; omega⟩
  have hdepth := Json.value_ones hn levels fuel []
  have hskip : Json.skipBlanks (List.replicate n '1' ++ ['\x7d']) =
      List.replicate n '1' ++ ['\x7d'] := by
    obtain ⟨less, rfl⟩ : ∃ less, n = less + 1 := ⟨n - 1, by omega⟩
    rfl
  have hwhole : Json.value (levels + 1) (fuel + 3) (fathoms n) = .error (.longInteger n) := by
    unfold fathoms
    rw [Json.value]
    show (Json.members levels (fuel + 2) [] _ >>= _) = _
    rw [Json.members_of_stop rfl (hskip ▸ hdepth)]
    rfl
  have hdocument : Json.document (levels + 1) (fathoms n) = .error (.longInteger n) := by
    show (Json.value (levels + 1) (2 * (fathoms n).length + 2) (fathoms n) >>= _) = _
    rw [hfuel, hwhole]
    rfl
  simp only [Json.parse, String.toList_ofList, hdocument]

/-- A depth of one digit too many is neither accepted nor refused. -/
theorem fathoms_fail :
    validate "walk.json" (some (Text.encode (String.ofList (fathoms 4301)))) =
        .error (.of (.longInteger 4301)) ∧
      load "walk.json" (some (Text.encode (String.ofList (fathoms 4301)))) =
        .error (.of (.longInteger 4301)) ∧
      ¬ Settled "walk.json" (some (Text.encode (String.ofList (fathoms 4301)))) maxLevels := by
  have hsimple : (fathoms 4301).all Command.isSimple = true := by
    have hones : (List.replicate 4301 '1').all Command.isSimple = true := by
      rw [List.all_replicate]
      rfl
    unfold fathoms
    simp only [List.all_cons, List.all_append, hones]
    rfl
  have hplain : plainText (String.ofList (fathoms 4301)) = String.ofList (fathoms 4301) := by
    rw [plainText, String.toList_ofList, Command.unifyNewlines_eq hsimple]
  have hvalidate : validate "walk.json" (some (Text.encode (String.ofList (fathoms 4301)))) =
      .error (.of (.longInteger 4301)) := by
    rw [validate_encode, hplain]
    exact ofText_of_fault (Command.readDocument_of_long (parse_fathoms (by decide) _))
  refine ⟨hvalidate, load_of_fault hvalidate, ?_⟩
  intro hsettled
  cases hsettled with
  | accepted _ haccepted _ =>
    rw [hvalidate] at haccepted
    cases haccepted
  | refused _ hrefused _ =>
    rw [hvalidate] at hrefused
    cases hrefused

end Documents

end Config

end Lineage
