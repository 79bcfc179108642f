import Lineage.Json.Reader

namespace Lineage

/-- A reading in two parts succeeds if both do, one after the other. -/
theorem bind_eq_ok_iff {ε α β : Type} {first : Except ε α} {next : α → Except ε β} {b : β} :
    first >>= next = .ok b ↔ ∃ a, first = .ok a ∧ next a = .ok b := by
  cases first <;> simp [bind, Except.bind]

theorem bind_eq_error_iff {ε α β : Type} {first : Except ε α} {next : α → Except ε β} {e : ε} :
    first >>= next = .error e ↔ first = .error e ∨ ∃ a, first = .ok a ∧ next a = .error e := by
  cases first <;> simp [bind, Except.bind]

namespace Json

/-- The second half of a surrogate pair, if it is written at the start of the
    characters, and what follows it. -/
def lowAfter? : List Char → Option (Nat × List Char)
  | '\\' :: 'u' :: after => (hex4 after).filter fun escape => isLowSurrogate escape.1
  | _ => none

/-- What may stand between the quotes of a string, and the characters that it
    stands for. Two escapes that form a surrogate pair are not read apart. -/
inductive Between : List Char → List Char → Prop where
  | nil : Between [] []
  | plain {c : Char} {text chars : List Char} (hquote : c ≠ '"') (hescape : c ≠ '\\')
      (hcontrol : 0x1F < c.toNat) (hrest : Between text chars) :
      Between (c :: text) (c :: chars)
  | short {e c : Char} {text chars : List Char} (hshort : shortEscape? e = some c)
      (hrest : Between text chars) : Between ('\\' :: e :: text) (c :: chars)
  | unicode {digits text chars : List Char} {n : Nat} (hdigits : hex4 digits = some (n, []))
      (hlone : isHighSurrogate n = true → lowAfter? text = none) (hrest : Between text chars) :
      Between ('\\' :: 'u' :: (digits ++ text)) (charOf n :: chars)
  | pair {first second text chars : List Char} {high low : Nat}
      (hfirst : hex4 first = some (high, [])) (hhigh : isHighSurrogate high = true)
      (hsecond : hex4 second = some (low, [])) (hlow : isLowSurrogate low = true)
      (hrest : Between text chars) :
      Between ('\\' :: 'u' :: (first ++ '\\' :: 'u' :: (second ++ text)))
        (Char.ofNat (0x10000 + (high - 0xD800) * 0x400 + (low - 0xDC00)) :: chars)

section Digits

variable {cs digits rest : List Char} {n : Nat}

/-- The number of an escape is written by its first four characters. -/
theorem hex4_eq_some_iff :
    hex4 cs = some (n, rest) ↔
      ∃ digits, cs = digits ++ rest ∧ digits.length = 4 ∧ hex4 digits = some (n, []) := by
  constructor
  · intro hhex
    match cs, hhex with
    | a :: b :: c :: d :: tail, hhex =>
      simp only [hex4, Option.bind_eq_bind, Option.bind_eq_some_iff, Option.some.injEq,
        Prod.mk.injEq] at hhex
      obtain ⟨a', ha, b', hb, c', hc, d', hd, hn, rfl⟩ := hhex
      exact ⟨[a, b, c, d], rfl, rfl, by simp [hex4, ha, hb, hc, hd, hn]⟩
  · rintro ⟨digits, rfl, hlength, hhex⟩
    match digits, hlength, hhex with
    | [a, b, c, d], _, hhex =>
      simp only [hex4, Option.bind_eq_bind, Option.bind_eq_some_iff, Option.some.injEq,
        Prod.mk.injEq] at hhex
      obtain ⟨a', ha, b', hb, c', hc, d', hd, hn, _⟩ := hhex
      simp [hex4, ha, hb, hc, hd, hn]

theorem length_of_hex4 (hdigits : hex4 digits = some (n, [])) : digits.length = 4 := by
  obtain ⟨four, rfl, hlength, _⟩ := hex4_eq_some_iff.mp hdigits
  simpa using hlength

theorem hex4_append (hdigits : hex4 digits = some (n, [])) (rest : List Char) :
    hex4 (digits ++ rest) = some (n, rest) :=
  hex4_eq_some_iff.mpr ⟨digits, rfl, length_of_hex4 hdigits, hdigits⟩

end Digits

section Reading

variable {text chars rest : List Char}

theorem lowAfter?_escape (after : List Char) :
    lowAfter? ('\\' :: 'u' :: after) = (hex4 after).filter fun escape => isLowSurrogate escape.1 :=
  rfl

theorem lowAfter?_alone {cs : List Char} (halone : ∀ after, cs ≠ '\\' :: 'u' :: after) :
    lowAfter? cs = none := by
  unfold lowAfter?
  split
  · next after => exact (halone after rfl).elim
  · rfl

section Escapes

variable {digits : List Char} {n : Nat} (hdigits : hex4 digits = some (n, []))

include hdigits

/-- An escape that no other one follows stands for a character of its own. -/
theorem unicodeEscape_alone (hmore : rest ≠ []) (halone : ∀ after, rest ≠ '\\' :: 'u' :: after) :
    unicodeEscape (digits ++ rest) = .ok (charOf n, rest) := by
  have hlong : ¬ (digits ++ rest).length ≤ 4 := by
    have hfour := length_of_hex4 hdigits
    have hone := List.length_pos_iff.mpr hmore
    simp only [List.length_append]
    omega
  simp only [unicodeEscape, hlong, hex4_append hdigits, if_false]
  rfl

/-- An escape that another one follows may be the first half of a pair. -/
theorem unicodeEscape_followed (after : List Char) :
    unicodeEscape (digits ++ '\\' :: 'u' :: after) =
      if isHighSurrogate n && after.length > 4 then
        match hex4 after with
        | none => .error (.flaw .unicodeEscape (after.length + 1))
        | some (low, final) =>
          if isLowSurrogate low then
            .ok (Char.ofNat (0x10000 + (n - 0xD800) * 0x400 + (low - 0xDC00)), final)
          else .ok (charOf n, '\\' :: 'u' :: after)
      else .ok (charOf n, '\\' :: 'u' :: after) := by
  have hlong : ¬ (digits ++ '\\' :: 'u' :: after).length ≤ 4 := by
    have hfour := length_of_hex4 hdigits
    simp only [List.length_append, List.length_cons]
    omega
  have hsix : ('\\' :: 'u' :: after).length > 6 ↔ after.length > 4 := by
    simp only [List.length_cons]
    omega
  simp only [unicodeEscape, hlong, hex4_append hdigits, if_false, hsix]
  rfl

end Escapes

/-- Inside a string an escape is followed by an escape that is whole, or by
    none. -/
theorem followed_cases (hbetween : Between text chars) :
    (∀ after, text ≠ '\\' :: 'u' :: after) ∨
      ∃ digits n after, hex4 digits = some (n, []) ∧ text = '\\' :: 'u' :: (digits ++ after) := by
  cases hbetween with
  | nil => simp
  | plain hquote hescape =>
    refine Or.inl ?_
    rintro after ⟨⟩
    exact hescape rfl
  | short hshort =>
    refine Or.inl ?_
    rintro after ⟨⟩
    cases hshort
  | unicode hdigits => exact Or.inr ⟨_, _, _, hdigits, rfl⟩
  | pair hfirst => exact Or.inr ⟨_, _, _, hfirst, rfl⟩

/-- An escape without a second half stands for a character of its own. -/
theorem unicodeEscape_lone {digits : List Char} {n : Nat} (hdigits : hex4 digits = some (n, []))
    (hbetween : Between text chars) (hlone : isHighSurrogate n = true → lowAfter? text = none)
    (rest : List Char) :
    unicodeEscape (digits ++ (text ++ '"' :: rest)) = .ok (charOf n, text ++ '"' :: rest) := by
  rcases followed_cases hbetween with halone | ⟨second, low, after, hsecond, rfl⟩
  · refine unicodeEscape_alone hdigits (by simp) ?_
    intro after hsame
    rcases text with _ | ⟨c, _ | ⟨d, tail⟩⟩
    · simp at hsame
    · simp at hsame
    · obtain ⟨rfl, rfl, -⟩ : c = '\\' ∧ d = 'u' ∧ _ := by simpa using hsame
      exact halone tail rfl
  · have hescape := unicodeEscape_followed hdigits (second ++ (after ++ '"' :: rest))
    rw [hex4_append hsecond] at hescape
    simp only [lowAfter?_escape, hex4_append hsecond, Option.filter] at hlone
    simp only [List.cons_append, List.append_assoc]
    rw [hescape]
    cases hhigh : isHighSurrogate n with
    | false => rfl
    | true =>
      have hlow : isLowSurrogate low = false := by simpa using hlone hhigh
      simp [hlow]

/-- What may stand between quotes is read up to the closing quote. -/
theorem stringBody_of_between (hbetween : Between text chars) (opening : Nat)
    (rest : List Char) {fuel : Nat} (hfuel : text.length < fuel) :
    stringBody opening fuel (text ++ '"' :: rest) = .ok (chars, rest) := by
  induction hbetween generalizing fuel with
  | nil =>
    obtain ⟨fuel, rfl⟩ : ∃ less, fuel = less + 1 := ⟨fuel - 1, by omega⟩
    rfl
  | @plain c text chars hquote hescape hcontrol hrest ih =>
    obtain ⟨fuel, rfl⟩ : ∃ less, fuel = less + 1 := ⟨fuel - 1, by omega⟩
    rw [List.length_cons] at hfuel
    have hlater := @ih fuel (by omega)
    have hprinted : ¬ c.toNat ≤ 0x1F := by omega
    simp [stringBody, hquote, hescape, hprinted, hlater, bind, Except.bind, pure, Except.pure]
  | @short e c text chars hshort hrest ih =>
    obtain ⟨fuel, rfl⟩ : ∃ less, fuel = less + 1 := ⟨fuel - 1, by omega⟩
    simp only [List.length_cons] at hfuel
    have hlater := @ih fuel (by omega)
    have hletter : e ≠ 'u' := by
      rintro rfl
      cases hshort
    simp [stringBody, hshort, hlater, bind, Except.bind, pure, Except.pure]
  | @unicode digits text chars n hdigits hlone hrest ih =>
    obtain ⟨fuel, rfl⟩ : ∃ less, fuel = less + 1 := ⟨fuel - 1, by omega⟩
    simp only [List.length_cons, List.length_append] at hfuel
    have hlater := @ih fuel (by omega)
    have hescape := unicodeEscape_lone hdigits hrest hlone rest
    simp [stringBody, hescape, hlater, bind, Except.bind, pure, Except.pure]
  | @pair first second text chars high low hfirst hhigh hsecond hlow hrest ih =>
    obtain ⟨fuel, rfl⟩ : ∃ less, fuel = less + 1 := ⟨fuel - 1, by omega⟩
    simp only [List.length_cons, List.length_append] at hfuel
    have hlater := @ih fuel (by omega)
    have hlong : 4 < (second ++ (text ++ '"' :: rest)).length := by
      have hfour := length_of_hex4 hsecond
      simp only [List.length_append, List.length_cons]
      omega
    have hescape := unicodeEscape_followed hfirst (second ++ (text ++ '"' :: rest))
    rw [hex4_append hsecond] at hescape
    simp only [hhigh, hlow, hlong, decide_true, Bool.and_self, if_true] at hescape
    simp [stringBody, hescape, hlater, bind, Except.bind, pure, Except.pure]

/-- What a numeric escape is made of, once it is read. -/
theorem unicodeEscape_cases {cs : List Char} {c : Char} (hread : unicodeEscape cs = .ok (c, rest)) :
    ∃ digits n, hex4 digits = some (n, []) ∧
      ((cs = digits ++ rest ∧ c = charOf n ∧
          (isHighSurrogate n = true → 6 < rest.length → lowAfter? rest = none)) ∨
        ∃ second low, hex4 second = some (low, []) ∧ isHighSurrogate n = true ∧
          isLowSurrogate low = true ∧ cs = digits ++ '\\' :: 'u' :: (second ++ rest) ∧
          c = Char.ofNat (0x10000 + (n - 0xD800) * 0x400 + (low - 0xDC00))) := by
  have hlong : ¬ cs.length ≤ 4 := by
    intro hshort
    simp [unicodeEscape, hshort] at hread
  rcases hhex : hex4 cs with _ | ⟨n, tail⟩
  · simp [unicodeEscape, hlong, hhex] at hread
  · obtain ⟨digits, rfl, _, hdigits⟩ := hex4_eq_some_iff.mp hhex
    refine ⟨digits, n, hdigits, ?_⟩
    have hmore : tail ≠ [] := by
      rintro rfl
      simp [length_of_hex4 hdigits] at hlong
    by_cases halone : ∀ after, tail ≠ '\\' :: 'u' :: after
    · rw [unicodeEscape_alone hdigits hmore halone] at hread
      cases hread
      exact Or.inl ⟨rfl, rfl, fun _ _ => lowAfter?_alone halone⟩
    · obtain ⟨after, rfl⟩ : ∃ after, tail = '\\' :: 'u' :: after := by simpa using halone
      rw [unicodeEscape_followed hdigits after] at hread
      split at hread
      · next hboth =>
        obtain ⟨hhigh, _⟩ := Bool.and_eq_true_iff.mp hboth
        split at hread
        · cases hread
        · next low final hsecond =>
          split at hread
          · next hlow =>
            obtain ⟨second, rfl, _, hsecond⟩ := hex4_eq_some_iff.mp hsecond
            rw [Except.ok.injEq, Prod.mk.injEq] at hread
            obtain ⟨hchar, rfl⟩ := hread
            exact Or.inr ⟨second, low, hsecond, hhigh, hlow, rfl, hchar.symm⟩
          · next hlow =>
            cases hread
            refine Or.inl ⟨rfl, rfl, fun _ _ => ?_⟩
            simp [lowAfter?_escape, hsecond, hlow]
      · next hneither =>
        cases hread
        refine Or.inl ⟨rfl, rfl, fun hhigh hlength => ?_⟩
        simp only [List.length_cons] at hlength
        have hshort : after.length > 4 := by omega
        exact (hneither (by simp [hhigh, hshort])).elim

/-- A second half that is not there with what follows the string is not there
    without it. -/
theorem lowAfter?_eq_none (hbetween : Between text chars)
    (hlone : 6 < (text ++ '"' :: rest).length → lowAfter? (text ++ '"' :: rest) = none) :
    lowAfter? text = none := by
  rcases followed_cases hbetween with halone | ⟨second, low, after, hsecond, rfl⟩
  · exact lowAfter?_alone halone
  · have hlength : 6 < ('\\' :: 'u' :: (second ++ after) ++ '"' :: rest).length := by
      have hfour := length_of_hex4 hsecond
      simp only [List.length_append, List.length_cons]
      omega
    have hnone := hlone hlength
    simp only [List.cons_append, List.append_assoc, lowAfter?_escape, hex4_append hsecond] at hnone ⊢
    simpa [Option.filter] using hnone

/-- What is read up to a closing quote may stand between quotes. -/
theorem between_of_stringBody {opening fuel : Nat} {cs : List Char}
    (hread : stringBody opening fuel cs = .ok (chars, rest)) :
    ∃ text, cs = text ++ '"' :: rest ∧ Between text chars := by
  fun_induction stringBody opening fuel cs generalizing chars rest with
  | case1 => cases hread
  | case2 => cases hread
  | case3 _ c after hquote =>
    cases hread
    exact ⟨[], by simpa using hquote, .nil⟩
  | case4 => cases hread
  | case5 _ c _ hescape after ih =>
    obtain ⟨⟨char, middle⟩, hunicode, hmore⟩ := bind_eq_ok_iff.mp hread
    obtain ⟨⟨others, final⟩, hrest, hdone⟩ := bind_eq_ok_iff.mp hmore
    cases hdone
    obtain ⟨text, rfl, hbetween⟩ := ih middle hrest
    obtain rfl : c = '\\' := by simpa using hescape
    obtain ⟨digits, n, hdigits, hcases⟩ := unicodeEscape_cases hunicode
    rcases hcases with ⟨rfl, hchar, hlone⟩ | ⟨second, low, hsecond, hhigh, hlow, rfl, hchar⟩
    · rw [hchar]
      refine ⟨'\\' :: 'u' :: (digits ++ text), by simp, .unicode hdigits ?_ hbetween⟩
      intro hhigh
      exact lowAfter?_eq_none hbetween (hlone hhigh)
    · rw [hchar]
      exact ⟨'\\' :: 'u' :: (digits ++ '\\' :: 'u' :: (second ++ text)), by simp,
        .pair hdigits hhigh hsecond hlow hbetween⟩
  | case6 => cases hread
  | case7 _ c _ hescape e after _ char hshort ih =>
    obtain ⟨⟨others, final⟩, hrest, hdone⟩ := bind_eq_ok_iff.mp hread
    cases hdone
    obtain ⟨text, rfl, hbetween⟩ := ih hrest
    obtain rfl : c = '\\' := by simpa using hescape
    exact ⟨'\\' :: e :: text, rfl, .short hshort hbetween⟩
  | case8 => cases hread
  | case9 _ c after hquote hescape hcontrol ih =>
    obtain ⟨⟨others, final⟩, hrest, hdone⟩ := bind_eq_ok_iff.mp hread
    cases hdone
    obtain ⟨text, rfl, hbetween⟩ := ih hrest
    exact ⟨c :: text, rfl, .plain (by simpa using hquote) (by simpa using hescape) (by omega)
      hbetween⟩

end Reading

section Documents

variable {text chars tail : List Char} {levels : Nat}

/-- A document that starts with a quote is the string up to the closing quote
    and blanks. -/
theorem document_quote (tail : List Char) :
    document levels ('"' :: tail) = (do
      let (chars, rest) ← stringBody (tail.length + 1) (tail.length + 1) tail
      match skipBlanks rest with
      | [] => pure (.text (String.ofList chars))
      | rest => fail .extra rest) := by
  have hblanks : skipBlanks ('"' :: tail) = '"' :: tail := rfl
  simp only [document, hblanks, value, string]
  cases stringBody (tail.length + 1) (tail.length + 1) tail <;> rfl

theorem parse_quote_of_between (hbetween : Between text chars) :
    parse (String.ofList ('"' :: (text ++ ['"']))) levels = .ok (.text (String.ofList chars)) := by
  have hread := stringBody_of_between hbetween ((text ++ ['"']).length + 1) []
    (show text.length < (text ++ ['"']).length + 1 by rw [List.length_append]; omega)
  have hdocument : document levels ('"' :: (text ++ ['"'])) = .ok (.text (String.ofList chars)) := by
    rw [document_quote, hread]
    rfl
  simp only [parse, String.toList_ofList, hdocument]

theorem between_of_parse_quote {datum : Datum}
    (hparse : parse (String.ofList ('"' :: tail)) levels = .ok datum) :
    ∃ text chars rest, tail = text ++ '"' :: rest ∧ Between text chars ∧
      datum = .text (String.ofList chars) := by
  rcases hdocument : document levels ('"' :: tail) with stop | found
  · simp only [parse, String.toList_ofList, hdocument] at hparse
    cases stop <;> cases hparse
  · simp only [parse, String.toList_ofList, hdocument] at hparse
    cases hparse
    rw [document_quote] at hdocument
    obtain ⟨⟨chars, rest⟩, hread, hend⟩ := bind_eq_ok_iff.mp hdocument
    obtain ⟨text, rfl, hbetween⟩ := between_of_stringBody hread
    refine ⟨text, chars, rest, rfl, hbetween, ?_⟩
    dsimp only at hend
    split at hend
    · cases hend
      rfl
    · cases hend

end Documents

end Json

end Lineage
