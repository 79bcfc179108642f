import Lineage.Proofs.Selector.ViablePrefix

namespace Lineage

namespace Json

/-- What follows an escape, read from the characters after its backslash: a
    letter that stands for a character, or `u` and four hexadecimal digits. -/
def afterEscape? : List Char → Option (List Char)
  | 'u' :: after => (hex4 after).map Prod.snd
  | e :: after =>
    if e ∈ ['"', '\\', '/', 'b', 'f', 'n', 'r', 't'] then some after else none
  | [] => none

/-- The flaws that a string with a closing quote can have. -/
def Flaw.IsInside (flaw : Flaw) : Prop :=
  flaw = .control ∨ flaw = .escape ∨ flaw = .unicodeEscape

/-- Characters in which, read from left to right, a backslash starts no escape. -/
inductive Misescaped : List Char → Prop where
  | here {after : List Char} (hnone : afterEscape? after = none) : Misescaped ('\\' :: after)
  | plain {c : Char} {text : List Char} (hplain : c ≠ '\\') (hrest : Misescaped text) :
      Misescaped (c :: text)
  | escape {after text : List Char} (hescape : afterEscape? after = some text)
      (hrest : Misescaped text) : Misescaped ('\\' :: after)

section Escapes

variable {c e : Char} {after digits text chars rest : List Char} {n : Nat}

theorem afterEscape?_letter (hletter : e ≠ 'u') (after : List Char) :
    afterEscape? (e :: after) = (shortEscape? e).map fun _ => after := by
  have hlist : (shortEscape? e).isSome = decide (e ∈ ['"', '\\', '/', 'b', 'f', 'n', 'r', 't']) := by
    unfold shortEscape?
    split <;> simp_all
  rw [afterEscape?]
  · cases hshort : shortEscape? e <;> rw [hshort] at hlist <;> simp_all
  · exact fun hu => hletter hu

theorem afterEscape?_unicode (hdigits : hex4 digits = some (n, [])) (after : List Char) :
    afterEscape? ('u' :: (digits ++ after)) = some after := by
  rw [afterEscape?, hex4_append hdigits]
  rfl

/-- What an escape is made of. -/
theorem afterEscape?_cases (hescape : afterEscape? after = some rest) :
    (∃ e c, after = e :: rest ∧ shortEscape? e = some c) ∨
      ∃ digits n, after = 'u' :: (digits ++ rest) ∧ hex4 digits = some (n, []) := by
  rcases after with _ | ⟨e, tail⟩
  · cases hescape
  by_cases hletter : e = 'u'
  · subst hletter
    obtain ⟨⟨n, after⟩, hhex, rfl⟩ := Option.map_eq_some_iff.mp hescape
    obtain ⟨digits, rfl, _, hdigits⟩ := hex4_eq_some_iff.mp hhex
    exact Or.inr ⟨digits, n, rfl, hdigits⟩
  · rw [afterEscape?_letter hletter] at hescape
    obtain ⟨c, hshort, rfl⟩ := Option.map_eq_some_iff.mp hescape
    exact Or.inl ⟨e, c, rfl, hshort⟩

theorem misescaped_cons (hplain : c ≠ '\\') : Misescaped (c :: text) ↔ Misescaped text := by
  constructor
  · rintro (_ | ⟨_, hrest⟩ | _)
    · exact (hplain rfl).elim
    · exact hrest
    · exact (hplain rfl).elim
  · exact .plain hplain

theorem misescaped_escape (hescape : afterEscape? after = some text) :
    Misescaped ('\\' :: after) ↔ Misescaped text := by
  constructor
  · intro hbad
    cases hbad with
    | here hnone => simp [hescape] at hnone
    | plain hplain => exact (hplain rfl).elim
    | escape hsame hrest =>
      rw [hescape, Option.some.injEq] at hsame
      rwa [hsame]
  · exact .escape hescape

/-- A hexadecimal digit is neither a control nor a backslash. -/
theorem printed_of_hexValue? {c : Char} {v : Nat} (hvalue : Text.hexValue? c = some v) :
    0x20 ≤ c.toNat ∧ c ≠ '\\' := by
  constructor
  · by_contra hcontrol
    have hsmall : ∀ {d : Char}, 0x20 ≤ d.toNat → ¬ d ≤ c := fun hd hle =>
      hcontrol (Nat.le_trans hd (UInt32.le_iff_toNat_le.mp hle))
    have hzero : ¬ '0' ≤ c := hsmall (by decide)
    have hlower : ¬ 'a' ≤ c := hsmall (by decide)
    have hupper : ¬ 'A' ≤ c := hsmall (by decide)
    simp [Text.hexValue?, hzero, hlower, hupper] at hvalue
  · rintro rfl
    simp [Text.hexValue?] at hvalue

theorem printed_of_hex4 (hdigits : hex4 digits = some (n, [])) :
    ∀ c ∈ digits, 0x20 ≤ c.toNat ∧ c ≠ '\\' := by
  unfold hex4 at hdigits
  split at hdigits
  · simp only [Option.bind_eq_bind, Option.bind_eq_some_iff, Option.some.injEq,
      Prod.mk.injEq] at hdigits
    obtain ⟨_, ha, _, hb, _, hc, _, hd, _, rfl⟩ := hdigits
    simp only [List.forall_mem_cons]
    exact ⟨printed_of_hexValue? ha, printed_of_hexValue? hb, printed_of_hexValue? hc,
      printed_of_hexValue? hd, by simp⟩
  · cases hdigits

/-- A string of a document has no control characters, and every backslash in it
    belongs to an escape. -/
theorem Between.wellFormed (hbetween : Between text chars) :
    (∀ c ∈ text, 0x20 ≤ c.toNat) ∧ (Misescaped (text ++ rest) ↔ Misescaped rest) := by
  induction hbetween with
  | nil => simp
  | @plain c text chars hquote hescape hcontrol hrest ih =>
    refine ⟨List.forall_mem_cons.mpr ⟨hcontrol, ih.1⟩, ?_⟩
    rw [List.cons_append, misescaped_cons hescape, ih.2]
  | @short e c text chars hshort hrest ih =>
    have hletter : e ≠ 'u' ∧ 0x20 ≤ e.toNat := by
      unfold shortEscape? at hshort
      split at hshort <;> simp_all
    refine ⟨?_, ?_⟩
    · simp only [List.forall_mem_cons]
      exact ⟨by decide, hletter.2, ih.1⟩
    · have hescape : afterEscape? (e :: (text ++ rest)) = some (text ++ rest) := by
        rw [afterEscape?_letter hletter.1, hshort]
        rfl
      rw [List.cons_append, List.cons_append, misescaped_escape hescape, ih.2]
  | @unicode digits text chars n hdigits hlone hrest ih =>
    refine ⟨?_, ?_⟩
    · simp only [List.forall_mem_cons, List.forall_mem_append]
      exact ⟨by decide, by decide, fun c hc => (printed_of_hex4 hdigits c hc).1, ih.1⟩
    · simp only [List.cons_append, List.append_assoc]
      rw [misescaped_escape (afterEscape?_unicode hdigits _), ih.2]
  | @pair first second text chars high low hfirst hhigh hsecond hlow hrest ih =>
    refine ⟨?_, ?_⟩
    · simp only [List.forall_mem_cons, List.forall_mem_append]
      exact ⟨by decide, by decide, fun c hc => (printed_of_hex4 hfirst c hc).1, by decide,
        by decide, fun c hc => (printed_of_hex4 hsecond c hc).1, ih.1⟩
    · simp only [List.cons_append, List.append_assoc]
      rw [misescaped_escape (afterEscape?_unicode hfirst _),
        misescaped_escape (afterEscape?_unicode hsecond _), ih.2]

/-- A numeric escape may stand before any string of a document: either it is the
    first half of a pair, or it is read by itself. -/
theorem Between.exists_unicode (hbetween : Between text chars)
    (hdigits : hex4 digits = some (n, [])) :
    ∃ others, Between ('\\' :: 'u' :: (digits ++ text)) others := by
  by_cases hlone : isHighSurrogate n = true → lowAfter? text = none
  · exact ⟨_, .unicode hdigits hlone hbetween⟩
  · obtain ⟨hhigh, hlow⟩ := Classical.not_imp.mp hlone
    rcases followed_cases hbetween with halone | ⟨second, low, after, hsecond, hsame⟩
    · exact (hlow (lowAfter?_alone halone)).elim
    cases hbetween with
    | nil => cases hsame
    | plain _ hescape => exact (hescape (List.cons.inj hsame).1).elim
    | short hshort =>
      cases hsame
      cases hshort
    | @unicode second text chars low hsecond _ hrest =>
      rw [lowAfter?_escape, hex4_append hsecond] at hlow
      exact ⟨_, .pair hdigits hhigh hsecond (by simpa [Option.filter] using hlow) hrest⟩
    | @pair first second text chars high low hfirst hhigher =>
      rw [lowAfter?_escape, hex4_append hfirst] at hlow
      simp [Option.filter, isLowSurrogate, isHighSurrogate] at hlow hhigher
      omega

/-- A numeric escape can only be refused for what it is. -/
theorem unicodeEscape_eq_error {cs : List Char} {stop : Stop}
    (hread : unicodeEscape cs = .error stop) : ∃ left, stop = .flaw .unicodeEscape left := by
  unfold unicodeEscape at hread
  split at hread
  · cases hread
    exact ⟨_, rfl⟩
  · split at hread
    · cases hread
      exact ⟨_, rfl⟩
    · split at hread
      · split at hread
        · split at hread
          · cases hread
            exact ⟨_, rfl⟩
          · split at hread <;> cases hread
        · cases hread
      · cases hread

end Escapes

end Json

namespace Selector

/-- How many backslashes stand at the end of the characters. -/
def backslashes (cs : List Char) : Nat := (cs.reverse.takeWhile (· = '\\')).length

/-- A quoted value: a quote, and what comes up to the next quote that an even
    number of backslashes stands before, without a line break. -/
def IsQuoted (lexeme : List Char) : Prop :=
  ∃ body, lexeme = '"' :: (body ++ ['"']) ∧ '\n' ∉ body ∧ backslashes body % 2 = 0 ∧
    ∀ before after, body = before ++ '"' :: after → backslashes before % 2 = 1

section Backslashes

variable {cs tail rest before lexeme : List Char}

theorem backslashes_concat (cs : List Char) (c : Char) :
    backslashes (cs ++ [c]) = if c = '\\' then backslashes cs + 1 else 0 := by
  by_cases hescape : c = '\\' <;> simp [backslashes, hescape]

/-- After one more character the parity of the backslashes before it is what the
    scanner goes on with. -/
theorem odd_concat (before : List Char) (c : Char) :
    decide (backslashes (before ++ [c]) % 2 = 1) =
      (c == '\\' && !decide (backslashes before % 2 = 1)) := by
  rw [backslashes_concat]
  by_cases hescape : c = '\\'
  · rcases Nat.mod_two_eq_zero_or_one (backslashes before) with hparity | hparity <;>
      simp [hescape, Nat.add_mod, hparity]
  · simp [hescape]

/-- The scanner looks for the first quote after an even number of backslashes.
    The induction is on the text, with what was read so far before it. -/
theorem quotedTail_iff :
    quotedTail (backslashes before % 2 = 1) cs = some (tail, rest) ↔
      ∃ body, tail = body ++ ['"'] ∧ cs = body ++ '"' :: rest ∧ '\n' ∉ body ∧
        backslashes (before ++ body) % 2 = 0 ∧
        ∀ first last, body = first ++ '"' :: last → backslashes (before ++ first) % 2 = 1 := by
  induction cs generalizing before tail with
  | nil => simp [quotedTail]
  | cons c cs ih =>
    rw [quotedTail, ← odd_concat]
    constructor
    · intro hquoted
      split at hquoted
      · cases hquoted
      · next hline =>
        split at hquoted
        · next hclose =>
          cases hquoted
          obtain ⟨rfl, heven⟩ : c = '"' ∧ backslashes before % 2 = 0 := by simpa using hclose
          exact ⟨[], rfl, rfl, by simp, by simpa using heven, by simp⟩
        · next hopen =>
          obtain ⟨⟨tail, after⟩, hlater, hsame⟩ := Option.map_eq_some_iff.mp hquoted
          cases hsame
          obtain ⟨body, rfl, rfl, hlines, heven, hodd⟩ := ih.mp hlater
          refine ⟨c :: body, rfl, rfl, ?_, by simpa using heven, ?_⟩
          · rw [List.mem_cons, not_or]
            exact ⟨fun hsame => hline (by simp [← hsame]), hlines⟩
          · intro first last hsplit
            cases first with
            | nil =>
              obtain rfl : c = '"' := (List.cons.inj hsplit).1
              simpa using hopen
            | cons d first =>
              obtain ⟨rfl, hmore⟩ := List.cons.inj hsplit
              simpa using hodd first last hmore
    · rintro ⟨body, rfl, hsplit, hlines, heven, hodd⟩
      cases body with
      | nil =>
        obtain ⟨rfl, rfl⟩ := List.cons.inj hsplit
        have hclosed : backslashes before % 2 = 0 := by simpa using heven
        simp [hclosed]
      | cons d body =>
        rw [List.cons_append] at hsplit
        obtain ⟨rfl, rfl⟩ := List.cons.inj hsplit
        have hlater : quotedTail (backslashes (before ++ [c]) % 2 = 1) (body ++ '"' :: rest) =
            some (body ++ ['"'], rest) := by
          refine ih.mpr ⟨body, rfl, rfl, fun hmem => hlines (by simp [hmem]), by simpa using heven, ?_⟩
          intro first last hsame
          simpa using hodd (c :: first) last (by simp [hsame])
        have hline : ¬ (c == '\n') = true := by
          intro hsame
          exact hlines (by simp [beq_iff_eq.mp hsame])
        have hopen : ¬ (c == '"' && !decide (backslashes before % 2 = 1)) = true := by
          intro hclose
          obtain ⟨rfl, heven⟩ : c = '"' ∧ backslashes before % 2 = 0 := by simpa using hclose
          have hbefore := hodd [] body rfl
          rw [List.append_nil] at hbefore
          omega
        rw [if_neg hline, if_neg hopen, hlater]
        rfl

theorem isQuoted_iff : IsQuoted ('"' :: tail) ↔ quotedTail false tail = some (tail, []) := by
  rw [show quotedTail false tail = some (tail, []) ↔ _ from @quotedTail_iff tail tail [] []]
  constructor
  · rintro ⟨body, hsame, hrest⟩
    obtain ⟨-, rfl⟩ := List.cons.inj hsame
    exact ⟨body, rfl, rfl, hrest⟩
  · rintro ⟨body, rfl, -, hrest⟩
    exact ⟨body, rfl, hrest⟩

theorem lexeme_string_iff : Terminal.string.Lexeme lexeme ↔ IsQuoted lexeme := by
  constructor
  · rintro ⟨tail, rfl, hquoted⟩
    exact isQuoted_iff.mpr hquoted
  · intro hquoted
    obtain ⟨body, rfl, -⟩ := id hquoted
    exact ⟨_, rfl, isQuoted_iff.mp hquoted⟩

/-- What the terminal of quoted values matches is the quoted value that the text
    starts with. -/
theorem match?_string_iff :
    Terminal.string.match? cs = some (lexeme, rest) ↔ cs = lexeme ++ rest ∧ IsQuoted lexeme := by
  constructor
  · intro hmatch
    obtain ⟨hsplit, hlexeme⟩ := lexeme_of_match? hmatch
    exact ⟨hsplit, lexeme_string_iff.mp hlexeme⟩
  · rintro ⟨rfl, hquoted⟩
    exact match?_of_lexeme (lexeme_string_iff.mpr hquoted) (by simp [Terminal.Stops])

end Backslashes

section Decoding

open Json (Between Misescaped Stop Flaw hex4 stringBody)

variable {text tail chars rest lexeme : List Char}

/-- Digits of an escape are passed over. -/
theorem quotedTail_unicode {digits : List Char} {n : Nat} (hdigits : hex4 digits = some (n, []))
    (rest : List Char) :
    quotedTail false ('\\' :: 'u' :: (digits ++ rest)) =
      (quotedTail false rest).map fun (tail, after) => ('\\' :: 'u' :: (digits ++ tail), after) := by
  rw [quotedTail_escape (by decide), quotedTail_plain (plain_of_hex4 hdigits), Option.map_map]
  rfl

/-- A string stops where what comes after one of its characters does. -/
theorem later_of_error {char : Char} {later : Except Stop (List Char × List Char)} {stop : Stop}
    (hread : (do let (chars, rest) ← later
                 pure (char :: chars, rest)) = Except.error stop) : later = .error stop := by
  rcases bind_eq_error_iff.mp hread with hlater | ⟨_, _, hdone⟩
  · exact hlater
  · cases hdone

/-- Before a closing quote, reading stops at a flaw inside the string only. -/
theorem inside_of_stringBody {opening fuel : Nat} {cs : List Char} {stop : Stop}
    (hread : stringBody opening fuel cs = .error stop) (hfuel : cs.length < fuel)
    (hquoted : quotedTail false cs = some (tail, rest)) :
    ∃ flaw left, stop = .flaw flaw left ∧ Flaw.IsInside flaw := by
  fun_induction stringBody opening fuel cs generalizing tail rest with
  | case1 => omega
  | case2 => cases hquoted
  | case3 => cases hread
  | case4 _ c hquote hescape =>
    obtain rfl : c = '\\' := by simpa using hescape
    simp [quotedTail] at hquoted
  | case5 _ c _ hescape after ih =>
    obtain rfl : c = '\\' := by simpa using hescape
    rcases bind_eq_error_iff.mp hread with hread | ⟨⟨char, middle⟩, hunicode, hmore⟩
    · obtain ⟨left, rfl⟩ := Json.unicodeEscape_eq_error hread
      exact ⟨_, left, rfl, Or.inr (Or.inr rfl)⟩
    · obtain ⟨digits, n, hdigits, hcases⟩ := Json.unicodeEscape_cases hunicode
      have hfour := Json.length_of_hex4 hdigits
      rcases hcases with ⟨rfl, -, -⟩ | ⟨second, low, hsecond, -, -, rfl, -⟩
      · rw [quotedTail_unicode hdigits] at hquoted
        obtain ⟨_, hlater, -⟩ := Option.map_eq_some_iff.mp hquoted
        simp only [List.length_cons, List.length_append] at hfuel
        exact ih middle (later_of_error hmore) (by omega) hlater
      · rw [quotedTail_unicode hdigits, quotedTail_unicode hsecond, Option.map_map] at hquoted
        obtain ⟨_, hlater, -⟩ := Option.map_eq_some_iff.mp hquoted
        simp only [List.length_cons, List.length_append] at hfuel
        exact ih middle (later_of_error hmore) (by omega) hlater
  | case6 _ c _ hescape e after hshort =>
    cases hread
    exact ⟨_, _, rfl, Or.inr (Or.inl rfl)⟩
  | case7 _ c _ hescape e after _ char hshort ih =>
    obtain rfl : c = '\\' := by simpa using hescape
    have hline : e ≠ '\n' := by
      rintro rfl
      cases hshort
    rw [quotedTail_escape hline] at hquoted
    obtain ⟨_, hlater, -⟩ := Option.map_eq_some_iff.mp hquoted
    simp only [List.length_cons] at hfuel
    exact ih (later_of_error hread) (by omega) hlater
  | case8 =>
    cases hread
    exact ⟨_, _, rfl, Or.inl rfl⟩
  | case9 _ c after hquote hescape hcontrol ih =>
    have hplain : ∀ d ∈ [c], d ≠ '\n' ∧ d ≠ '"' ∧ d ≠ '\\' := by
      rw [List.forall_mem_singleton]
      refine ⟨?_, by simpa using hquote, by simpa using hescape⟩
      rintro rfl
      exact hcontrol (by decide)
    rw [← List.singleton_append, quotedTail_plain hplain] at hquoted
    obtain ⟨_, hlater, -⟩ := Option.map_eq_some_iff.mp hquoted
    simp only [List.length_cons] at hfuel
    exact ih (later_of_error hread) (by omega) hlater

/-- The scanner passes over what starts an escape, and it may stand before any
    string of a document. -/
theorem exists_escape {after : List Char} (hescape : Json.afterEscape? after = some rest) :
    ∃ escape, after = escape ++ rest ∧ escape ≠ [] ∧
      quotedTail false ('\\' :: after) =
        (quotedTail false rest).map (fun (tail, left) => ('\\' :: (escape ++ tail), left)) ∧
      ∀ text chars, Between text chars → ∃ others, Between ('\\' :: (escape ++ text)) others := by
  rcases Json.afterEscape?_cases hescape with ⟨e, c, rfl, hshort⟩ | ⟨digits, n, rfl, hdigits⟩
  · have hline : e ≠ '\n' := by
      rintro rfl
      cases hshort
    exact ⟨[e], rfl, List.cons_ne_nil _ _, quotedTail_escape hline,
      fun text chars hbetween => ⟨c :: chars, .short hshort hbetween⟩⟩
  · exact ⟨'u' :: digits, rfl, List.cons_ne_nil _ _, quotedTail_unicode hdigits rest,
      fun text chars hbetween => hbetween.exists_unicode hdigits⟩

/-- A quoted value without control characters whose backslashes all start
    escapes is a string of a document. The induction is on the length, since an
    escape takes up to six characters. -/
theorem exists_between (hquoted : quotedTail false tail = some (tail, []))
    (hprinted : ∀ c ∈ tail, 0x20 ≤ c.toNat) (hescapes : ¬ Misescaped tail) :
    ∃ text chars, tail = text ++ ['"'] ∧ Between text chars := by
  induction hlength : tail.length using Nat.strongRecOn generalizing tail with
  | ind length ih =>
    cases tail with
    | nil => cases hquoted
    | cons c after =>
      obtain ⟨hfirst, hmore⟩ := List.forall_mem_cons.mp hprinted
      rw [List.length_cons] at hlength
      by_cases hquote : c = '"'
      · subst hquote
        cases hquoted
        exact ⟨[], [], rfl, .nil⟩
      by_cases hescape : c = '\\'
      · subst hescape
        obtain ⟨rest, hrest⟩ : ∃ rest, Json.afterEscape? after = some rest := by
          rw [← Option.ne_none_iff_exists']
          exact fun hnone => hescapes (.here hnone)
        obtain ⟨escape, rfl, hlong, hpassed, hbefore⟩ := exists_escape hrest
        rw [hpassed] at hquoted
        obtain ⟨⟨_, _⟩, htail, hsame⟩ := Option.map_eq_some_iff.mp hquoted
        simp only [Prod.mk.injEq, List.cons.injEq, List.append_cancel_left_eq, true_and] at hsame
        obtain ⟨rfl, rfl⟩ := hsame
        have hshorter := List.length_pos_iff.mpr hlong
        rw [List.length_append] at hlength
        obtain ⟨text, chars, rfl, hbetween⟩ := ih _ (by omega) htail
          (fun d hd => hmore d (List.mem_append_right escape hd))
          (fun hbad => hescapes (.escape hrest hbad)) rfl
        obtain ⟨others, hothers⟩ := hbefore text chars hbetween
        exact ⟨'\\' :: (escape ++ text), others, by simp, hothers⟩
      · have hline : c ≠ '\n' := by
          rintro rfl
          revert hfirst
          decide
        rw [← List.singleton_append, quotedTail_plain (by simp [hline, hquote, hescape])] at hquoted
        obtain ⟨⟨_, _⟩, htail, hsame⟩ := Option.map_eq_some_iff.mp hquoted
        cases hsame
        obtain ⟨text, chars, rfl, hbetween⟩ := ih _ (by omega) htail hmore
          (fun hbad => hescapes (.plain hescape hbad)) rfl
        exact ⟨c :: text, c :: chars, rfl, .plain hquote hescape hfirst hbetween⟩

/-- A quoted value is a string of a document unless it has a control character
    or a backslash that starts no escape. -/
theorem isDocumentString_iff (hquoted : IsQuoted lexeme) :
    IsDocumentString lexeme ↔ ¬ ((∃ c ∈ lexeme, c.toNat < 0x20) ∨ Misescaped lexeme) := by
  obtain ⟨body, rfl, -⟩ := id hquoted
  rw [isQuoted_iff] at hquoted
  rw [not_or, Json.misescaped_cons (by decide)]
  constructor
  · rintro ⟨text, chars, hsame, hbetween⟩
    obtain ⟨-, hsame⟩ := List.cons.inj hsame
    rw [hsame]
    obtain ⟨hprinted, hescapes⟩ := @Json.Between.wellFormed _ _ ['"'] hbetween
    refine ⟨?_, ?_⟩
    · rintro ⟨c, hc, hcontrol⟩
      simp only [List.mem_cons, List.mem_append, List.not_mem_nil, or_false] at hc
      rcases hc with rfl | hc | rfl
      · revert hcontrol
        decide
      · have hleast := hprinted c hc
        omega
      · revert hcontrol
        decide
    · rw [hescapes, Json.misescaped_cons (by decide)]
      rintro ⟨⟩
  · rintro ⟨hprinted, hescapes⟩
    have hall : ∀ c ∈ body ++ ['"'], 0x20 ≤ c.toNat := by
      intro c hc
      by_contra hcontrol
      exact hprinted ⟨c, List.mem_cons_of_mem _ hc, by omega⟩
    obtain ⟨text, chars, htext, hbetween⟩ := exists_between hquoted hall hescapes
    exact ⟨text, chars, by rw [htext], hbetween⟩

/-- Reading a string stops at the quote that closes the quoted value. -/
theorem ends_of_stringBody {opening fuel : Nat} {cs after : List Char}
    (hquoted : quotedTail false cs = some (tail, rest))
    (hread : stringBody opening fuel cs = .ok (chars, after)) :
    after = rest ∧ ∃ text, tail = text ++ ['"'] ∧ Between text chars := by
  obtain ⟨text, rfl, hbetween⟩ := Json.between_of_stringBody hread
  rw [quotedTail_of_between hbetween] at hquoted
  cases hquoted
  exact ⟨rfl, text, rfl, hbetween⟩

/-- A quoted value is read, or refused for something inside the string. -/
theorem parse_cases (hquoted : IsQuoted lexeme) :
    (IsDocumentString lexeme ∧ ∃ datum, Json.parse (String.ofList lexeme) = .ok datum) ∨
      (¬ IsDocumentString lexeme ∧ ∃ flaw line column position,
        Json.parse (String.ofList lexeme) = .error (.malformed flaw line column position) ∧
          flaw.IsInside) := by
  by_cases hstring : IsDocumentString lexeme
  · obtain ⟨text, chars, rfl, hbetween⟩ := id hstring
    exact Or.inl ⟨hstring, _, Json.parse_quote_of_between hbetween⟩
  · obtain ⟨body, rfl, -⟩ := id hquoted
    rw [isQuoted_iff] at hquoted
    refine Or.inr ⟨hstring, ?_⟩
    cases hread : stringBody ((body ++ ['"']).length + 1) ((body ++ ['"']).length + 1)
        (body ++ ['"']) with
    | ok found =>
      obtain ⟨-, text, htext, hbetween⟩ := ends_of_stringBody hquoted hread
      exact (hstring ⟨text, _, by rw [htext], hbetween⟩).elim
    | error stop =>
      obtain ⟨flaw, left, rfl, hinside⟩ := inside_of_stringBody hread (by omega) hquoted
      have hdocument : Json.document maxLevels ('"' :: (body ++ ['"'])) = .error (.flaw flaw left) := by
        rw [Json.document_quote, hread]
        rfl
      have hparse : Json.parse (String.ofList ('"' :: (body ++ ['"']))) =
          .error (.at ('"' :: (body ++ ['"'])) flaw (('"' :: (body ++ ['"'])).length - left)) := by
        simp only [Json.parse, String.toList_ofList, hdocument]
      exact ⟨flaw, _, _, _, hparse, hinside⟩

end Decoding

section Refusals

variable {α : Type} {reads : List Char → α → Prop} {lexemes : List (List Char)} {tail : List Char}

/-- No sign, name or comma starts with a quote. -/
theorem WritesPredicates.reads_quoted {predicates : List (String × α)}
    (hwrites : WritesPredicates reads lexemes predicates) (hmem : '"' :: tail ∈ lexemes) :
    ∃ a, reads ('"' :: tail) a := by
  induction hwrites with
  | nil => cases hmem
  | @cons key value a lexemes predicates hkey hvalue _ ih =>
    simp only [List.mem_cons] at hmem
    rcases hmem with hsame | rfl | hsame | rfl | hsame | hmem
    · cases hsame
    · exact absurd hkey.1 (by decide)
    · cases hsame
    · exact ⟨a, hvalue⟩
    · cases hsame
    · exact ih hmem

theorem WritesClause.reads_quoted {clause : Clause α} (hwrites : WritesClause reads lexemes clause)
    (hmem : '"' :: tail ∈ lexemes) : ∃ a, reads ('"' :: tail) a := by
  cases hwrites with
  | @named name lexemes predicates hname hpredicates =>
    rcases List.mem_cons.mp hmem with rfl | hmem
    · exact absurd hname.1 (by decide)
    · exact hpredicates.reads_quoted hmem
  | anyType hpredicates =>
    rcases List.mem_cons.mp hmem with hsame | hmem
    · cases hsame
    · exact hpredicates.reads_quoted hmem
  | untyped hpredicates => exact hpredicates.reads_quoted hmem

/-- A quoted lexeme of a selector is one of its values. -/
theorem WritesClauses.reads_quoted {clauses : List (Clause α)}
    (hwrites : WritesClauses reads lexemes clauses) (hmem : '"' :: tail ∈ lexemes) :
    ∃ a, reads ('"' :: tail) a := by
  induction hwrites with
  | last hclause => exact hclause.reads_quoted hmem
  | cons hclause _ ih =>
    rcases List.mem_append.mp hmem with hmem | hmem
    · exact hclause.reads_quoted hmem
    · rcases List.mem_cons.mp hmem with hsame | hmem
      · cases hsame
      · exact ih hmem

variable {selector : String} {tokens : List Token} {state last : State} {symbols : List Symbol}
  {text rest lexeme : List Char}

/-- A scan that finds the symbols of a text has read all of it. -/
theorem readsBefore_of_scan {cs : List Char} {fuel offset : Nat} {previous : Option Token}
    (hscan : scanFrom fuel state previous offset cs = .ok tokens) :
    ∃ last, ReadsBefore [] last state (tokens.map Token.symbol) cs := by
  induction fuel generalizing state previous offset cs tokens with
  | zero => cases hscan
  | succ fuel ih =>
    have hblanks : ∀ c ∈ cs.takeWhile isBlank, isBlank c = true :=
      List.all_eq_true.mp List.all_takeWhile
    have hsplit : cs = cs.takeWhile isBlank ++ cs.dropWhile isBlank :=
      List.takeWhile_append_dropWhile.symm
    rw [scanFrom] at hscan
    split at hscan
    · next hnone =>
      split at hscan
      · cases hscan
        rw [hsplit, hnone, List.append_nil]
        exact ⟨state, .blanks hblanks⟩
      · cases hscan
    · next rest =>
      split at hscan
      · cases hscan
      · next terminal lexeme after hmatch =>
        obtain ⟨later, hlater, hsame⟩ := bind_eq_ok_iff.mp hscan
        cases hsame
        obtain ⟨hexpected, hmatch⟩ := expected_of_match? hmatch
        obtain ⟨hcut, hlexeme⟩ := lexeme_of_match? hmatch
        obtain ⟨last, hreads⟩ := ih hlater
        rw [hsplit, hcut]
        simp only [List.map_cons, Token.symbol, String.toList_ofList]
        refine ⟨last, .symbol hblanks hexpected hlexeme ?_ hreads⟩
        rw [List.append_nil]
        exact stops_of_match? hmatch

/-- A scan starts with the symbols that are read from the start of the text. -/
theorem ReadsBefore.starts_scan {fuel offset : Nat} {previous : Option Token}
    (hreads : ReadsBefore rest last state symbols text)
    (hscan : scanFrom fuel state previous offset (text ++ rest) = .ok tokens) :
    ∃ more, tokens.map Token.symbol = symbols ++ more := by
  induction hreads generalizing fuel offset previous tokens with
  | blanks => exact ⟨_, rfl⟩
  | @symbol state terminal blanks lexeme after symbols hblanks hexpected hlexeme hstops _ ih =>
    cases fuel with
    | zero => cases hscan
    | succ fuel =>
      rw [List.append_assoc, List.append_assoc,
        scanFrom_symbol hblanks hexpected hlexeme hstops] at hscan
      obtain ⟨later, hlater, hsame⟩ := bind_eq_ok_iff.mp hscan
      cases hsame
      obtain ⟨more, hmore⟩ := ih hlater
      exact ⟨more, by simp [hmore, Token.symbol]⟩

/-- The symbols of a selector that is read write its alternatives. -/
theorem writes_of_scan {test : Datum} (hscan : scan selector = .ok tokens)
    (hparse : parse selector = .ok test) :
    ∃ clauses, WritesClauses WritesValue (tokens.map (·.text.toList)) clauses := by
  simp only [parse_eq, hscan] at hparse
  obtain ⟨tests, htests, _⟩ := bind_eq_ok_iff.mp hparse
  rw [mapM_ofTokens] at htests
  obtain ⟨hruns, _⟩ := scanFrom_sound hscan
  obtain ⟨clauses, hclauses, _⟩ := clauses_of_literals (clauses_of_runs hruns) htests
  exact ⟨clauses, hclauses⟩

/-- A selector with a quoted value that is no string of a document is refused,
    wherever the value stands and whatever comes after it. -/
theorem refused_of_quoted (hreads : ReadsBefore rest last .item symbols text)
    (hselector : selector.toList = text ++ rest) (hmem : (.string, lexeme) ∈ symbols)
    (hquoted : IsQuoted lexeme) (hbad : ¬ IsDocumentString lexeme) :
    ∃ error, parse selector = .error error ∧
      ∀ tokens, scan selector = .ok tokens → ∃ raw reason, error = .badString raw reason := by
  cases hparse : parse selector with
  | error error =>
    refine ⟨error, rfl, fun tokens hscan => ?_⟩
    simp only [parse_eq, hscan] at hparse
    exact blamesString_testOf _ error hparse
  | ok test =>
    obtain ⟨tokens, hscan⟩ := exists_scan_of_parse hparse
    obtain ⟨clauses, hclauses⟩ := writes_of_scan hscan hparse
    rw [scan, hselector] at hscan
    obtain ⟨more, hmore⟩ := hreads.starts_scan hscan
    have hlexeme : lexeme ∈ tokens.map (·.text.toList) := by
      have htoken : (Terminal.string, lexeme) ∈ tokens.map Token.symbol := by simp [hmore, hmem]
      obtain ⟨token, htoken, hsame⟩ := List.mem_map.mp htoken
      exact List.mem_map.mpr ⟨token, htoken, (Prod.mk.inj hsame).2⟩
    obtain ⟨body, rfl, -⟩ := hquoted
    obtain ⟨scalar, hvalue⟩ := hclauses.reads_quoted hlexeme
    generalize hcs : '"' :: (body ++ ['"']) = cs at hvalue hbad
    cases hvalue with
    | bare hbare =>
      rw [← hcs] at hbare
      exact absurd (hbare.2 _ List.mem_cons_self) (by decide)
    | quoted hbetween => exact (hbad ⟨_, _, rfl, hbetween⟩).elim

end Refusals

/-- The scanner of selectors and the reader of documents agree on where a quoted
    value ends. What the scanner takes is a quote up to the next one after an
    even number of backslashes; read as a document it is never unterminated and
    never followed by anything, and it is refused just for a control character
    or a backslash that starts no escape. A selector in which such a value was
    read is then refused with a complaint that names the whole selector. -/
theorem quoted_values_end_as_strings (cs lexeme rest : List Char) :
    (Terminal.string.match? cs = some (lexeme, rest) ↔ cs = lexeme ++ rest ∧ IsQuoted lexeme) ∧
    (IsQuoted lexeme →
      (∀ tail string after, lexeme = '"' :: tail →
        Json.string (tail ++ rest) = .ok (string, after) → after = rest) ∧
      (∀ error, Json.parse (String.ofList lexeme) = .error error →
        ∃ flaw line column position,
          error = .malformed flaw line column position ∧ flaw.IsInside) ∧
      ((∃ error, Json.parse (String.ofList lexeme) = .error error) ↔
        (∃ c ∈ lexeme, c.toNat < 0x20) ∨ Json.Misescaped lexeme) ∧
      ∀ selector symbols last text after, selector.toList = text ++ after →
        ReadsBefore after last .item symbols text → (.string, lexeme) ∈ symbols →
        (∃ error, Json.parse (String.ofList lexeme) = .error error) →
        ∃ error complaint, parse selector = .error error ∧
          (∀ tokens, scan selector = .ok tokens → ∃ raw reason, error = .badString raw reason) ∧
          error.fault selector = .of (.complaint complaint) ∧ complaint.topic = .selector ∧
          complaint.code = some "SELECTOR_PARSE_ERROR" ∧ complaint.subject = some selector) := by
  refine ⟨match?_string_iff, fun hquoted => ?_⟩
  have hfails : (∃ error, Json.parse (String.ofList lexeme) = .error error) ↔
      ¬ IsDocumentString lexeme := by
    rcases parse_cases hquoted with ⟨hstring, _, hparse⟩ | ⟨hbad, _, _, _, _, hparse, _⟩
    · simp [hparse, hstring]
    · simp [hparse, hbad]
  refine ⟨?_, ?_, ?_, ?_⟩
  · rintro tail string after rfl hread
    obtain ⟨⟨chars, final⟩, hbody, hsame⟩ := bind_eq_ok_iff.mp hread
    cases hsame
    exact (ends_of_stringBody ((quotedTail_append (isQuoted_iff.mp hquoted)).2 rest) hbody).1
  · intro error herror
    rcases parse_cases hquoted with ⟨_, _, hparse⟩ | ⟨_, flaw, _, _, _, hparse, hinside⟩
    · rw [herror] at hparse
      cases hparse
    · rw [herror] at hparse
      cases hparse
      exact ⟨flaw, _, _, _, rfl, hinside⟩
  · rw [hfails, isDocumentString_iff hquoted, not_not]
  · intro selector symbols last text after hselector hreads hmem hfailed
    obtain ⟨error, hparse, hscan⟩ :=
      refused_of_quoted hreads hselector hmem hquoted (hfails.mp hfailed)
    exact ⟨error, _, hparse, hscan, rfl, rfl, rfl, rfl⟩

/-- The quoted value `"\q"`, as a selector and a document may have it. -/
def strayEscape : List Char := ['"', '\\', 'q', '"']

theorem strayEscape_ends_as_string :
    IsQuoted strayEscape ∧ Json.Misescaped strayEscape ∧
    ∃ symbols last,
      ReadsBefore [] last .item symbols ("p[k=\"\\q\"]".toList) ∧
      (.string, strayEscape) ∈ symbols ∧
      ∃ error complaint, parse "p[k=\"\\q\"]" = .error error ∧
        error.fault "p[k=\"\\q\"]" = .of (.complaint complaint) ∧
        complaint.subject = some "p[k=\"\\q\"]" := by
  have hmatch : Terminal.string.match? (strayEscape ++ [']']) = some (strayEscape, [']']) := by
    decide
  obtain ⟨hiff, hends⟩ := quoted_values_end_as_strings (strayEscape ++ [']']) strayEscape [']']
  obtain ⟨-, hquoted⟩ := hiff.mp hmatch
  obtain ⟨-, -, hfails, hrefused⟩ := hends hquoted
  have hbad : Json.Misescaped strayEscape := .plain (by decide) (.here (by decide))
  have hscan : scan "p[k=\"\\q\"]" = .ok [⟨.name, "p", 0⟩, ⟨.opening, "[", 1⟩, ⟨.name, "k", 2⟩,
      ⟨.equals, "=", 3⟩, ⟨.string, "\"\\q\"", 4⟩, ⟨.closing, "]", 8⟩] := by
    cbv
  obtain ⟨last, hreads⟩ := readsBefore_of_scan hscan
  refine ⟨hquoted, hbad, _, last, hreads, by decide, ?_⟩
  obtain ⟨error, complaint, hparse, -, hfault, -, -, hsubject⟩ :=
    hrefused _ _ _ _ [] (List.append_nil _).symm hreads (by decide) (hfails.mpr (Or.inr hbad))
  exact ⟨error, complaint, hparse, hfault, hsubject⟩

end Selector

end Lineage
