import Lineage.Proofs.Selector.Grammar

namespace Lineage.Selector

/-- The lexemes of a terminal. -/
def Terminal.Lexeme (terminal : Terminal) (cs : List Char) : Prop :=
  match terminal with
  | .name => IsName cs
  | .bareword => IsBareword cs
  | .string => ∃ tail, cs = '"' :: tail ∧ quotedTail false tail = some (tail, [])
  | .star => cs = ['*']
  | .opening => cs = ['[']
  | .closing => cs = [']']
  | .equals => cs = ['=']
  | .comma => cs = [',']
  | .ending => False

/-- A symbol apart from its place: which one it is, and how it is written. -/
abbrev Symbol := Terminal × List Char

def Token.symbol (token : Token) : Symbol := (token.terminal, token.text.toList)

/-- Symbols that may stand one after the other from a state on, up to the end
    of the text. -/
inductive Runs : State → List Symbol → Prop where
  | nil {state : State} (hend : .ending ∈ state.expected) : Runs state []
  | cons {state : State} {terminal : Terminal} {lexeme : List Char} {rest : List Symbol}
      (hexpected : terminal ∈ state.expected) (hlexeme : terminal.Lexeme lexeme)
      (hrest : Runs (state.next terminal) rest) : Runs state ((terminal, lexeme) :: rest)

section Matching

variable {cs lexeme rest : List Char} {terminal : Terminal}

/-- The quote that closes a value is found without a look at what follows. -/
theorem quotedTail_append {odd : Bool} {tail : List Char}
    (hquoted : quotedTail odd cs = some (tail, rest)) :
    cs = tail ++ rest ∧ ∀ more, quotedTail odd (tail ++ more) = some (tail, more) := by
  induction cs generalizing odd tail with
  | nil => cases hquoted
  | cons c cs ih =>
    rw [quotedTail] at hquoted
    split at hquoted
    · cases hquoted
    · next hline =>
      split at hquoted
      · next hclose =>
        cases hquoted
        refine ⟨rfl, fun more => ?_⟩
        rw [List.singleton_append, quotedTail, if_neg hline, if_pos hclose]
      · next hopen =>
        obtain ⟨⟨tail, after⟩, hlater, hsame⟩ := Option.map_eq_some_iff.mp hquoted
        cases hsame
        obtain ⟨rfl, hmore⟩ := ih hlater
        refine ⟨rfl, fun more => ?_⟩
        rw [List.cons_append, quotedTail, if_neg hline, if_neg hopen, hmore more]
        rfl

theorem run?_eq_some {p : Char → Bool} (hrun : run? p cs = some (lexeme, rest)) :
    cs = lexeme ++ rest ∧ lexeme ≠ [] ∧ ∀ c ∈ lexeme, p c = true := by
  unfold run? at hrun
  split at hrun
  · cases hrun
  · next hnonempty =>
    cases hrun
    refine ⟨(List.takeWhile_append_dropWhile).symm, hnonempty, ?_⟩
    exact List.all_eq_true.mp List.all_takeWhile

theorem char?_eq_some {c : Char} (hchar : char? c cs = some (lexeme, rest)) :
    cs = lexeme ++ rest ∧ lexeme = [c] := by
  cases cs with
  | nil => cases hchar
  | cons d tail =>
    rw [char?] at hchar
    split at hchar
    · next hsame =>
      cases hchar
      exact ⟨by simpa using hsame, rfl⟩
    · cases hchar

/-- What a terminal matches is one of its lexemes, at the start of the text. -/
theorem lexeme_of_match? (hmatch : terminal.match? cs = some (lexeme, rest)) :
    cs = lexeme ++ rest ∧ terminal.Lexeme lexeme := by
  cases terminal with
  | name =>
    cases cs with
    | nil => cases hmatch
    | cons c tail =>
      rw [Terminal.match?] at hmatch
      split at hmatch
      · next hstart =>
        cases hmatch
        refine ⟨?_, hstart, List.all_eq_true.mp List.all_takeWhile⟩
        rw [List.cons_append, List.takeWhile_append_dropWhile]
      · cases hmatch
  | string =>
    cases cs with
    | nil => cases hmatch
    | cons c tail =>
      by_cases hquote : c = '"'
      · subst hquote
        obtain ⟨⟨quoted, after⟩, hquoted, hsame⟩ := Option.map_eq_some_iff.mp hmatch
        cases hsame
        obtain ⟨rfl, hmore⟩ := quotedTail_append hquoted
        exact ⟨rfl, quoted, rfl, by simpa using hmore []⟩
      · simp [Terminal.match?, hquote] at hmatch
  | bareword =>
    obtain ⟨hsplit, hnonempty, hall⟩ := run?_eq_some hmatch
    exact ⟨hsplit, hnonempty, hall⟩
  | star => exact char?_eq_some hmatch
  | opening => exact char?_eq_some hmatch
  | closing => exact char?_eq_some hmatch
  | equals => exact char?_eq_some hmatch
  | comma => exact char?_eq_some hmatch
  | ending => cases hmatch

/-- What follows a lexeme does not continue it. Only names and barewords can be
    continued. -/
def Terminal.Stops (terminal : Terminal) (rest : List Char) : Prop :=
  ∀ c ∈ rest.head?,
    (terminal = .name → isNameChar c = false) ∧ (terminal = .bareword → isBareChar c = false)

theorem takeWhile_of_head {p : Char → Bool} (hall : ∀ c ∈ lexeme, p c = true)
    (hstop : ∀ c ∈ rest.head?, p c = false) :
    (lexeme ++ rest).takeWhile p = lexeme ∧ (lexeme ++ rest).dropWhile p = rest := by
  have hnone : rest.takeWhile p = [] ∧ rest.dropWhile p = rest := by
    cases rest with
    | nil => exact ⟨rfl, rfl⟩
    | cons c tail => simp [hstop c rfl]
  rw [List.takeWhile_append_of_pos hall, List.dropWhile_append_of_pos hall, hnone.1, hnone.2]
  simp

/-- A lexeme that is not continued is what its terminal matches. -/
theorem match?_of_lexeme (hlexeme : terminal.Lexeme lexeme) (hstops : terminal.Stops rest) :
    terminal.match? (lexeme ++ rest) = some (lexeme, rest) := by
  cases terminal with
  | name =>
    cases lexeme with
    | nil => cases hlexeme
    | cons c tail =>
      obtain ⟨hstart, hall⟩ := hlexeme
      obtain ⟨htake, hdrop⟩ := takeWhile_of_head hall fun d hd => (hstops d hd).1 rfl
      rw [List.cons_append, Terminal.match?, if_pos hstart, htake, hdrop]
  | string =>
    obtain ⟨tail, rfl, hquoted⟩ := hlexeme
    have hmore := (quotedTail_append hquoted).2 rest
    rw [List.cons_append, Terminal.match?, hmore]
    rfl
  | bareword =>
    obtain ⟨hnonempty, hall⟩ := hlexeme
    obtain ⟨htake, hdrop⟩ := takeWhile_of_head hall fun d hd => (hstops d hd).2 rfl
    rw [Terminal.match?, run?, htake, hdrop]
    split
    · exact (hnonempty rfl).elim
    · rfl
  | star => cases hlexeme; rfl
  | opening => cases hlexeme; rfl
  | closing => cases hlexeme; rfl
  | equals => cases hlexeme; rfl
  | comma => cases hlexeme; rfl
  | ending => cases hlexeme

/-- What a terminal matches is the longest that it can. -/
theorem stops_of_match? (hmatch : terminal.match? cs = some (lexeme, rest)) :
    terminal.Stops rest := by
  have hstop : ∀ (p : Char → Bool) (text : List Char), ∀ c ∈ (text.dropWhile p).head?,
      p c = false := by
    intro p text c hc
    have hhead := List.head?_dropWhile_not p text
    rwa [Option.mem_def.mp hc] at hhead
  intro c hc
  constructor
  · rintro rfl
    cases cs with
    | nil => cases hmatch
    | cons d tail =>
      rw [Terminal.match?] at hmatch
      split at hmatch
      · cases hmatch
        exact hstop _ _ c hc
      · cases hmatch
  · rintro rfl
    rw [Terminal.match?, run?] at hmatch
    split at hmatch
    · cases hmatch
    · cases hmatch
      exact hstop _ _ c hc

end Matching

section States

variable {state : State} {terminal : Terminal} {cs lexeme rest : List Char}

theorem expected_of_match? (hmatch : state.match? cs = some (terminal, lexeme, rest)) :
    terminal ∈ state.expected ∧ terminal.match? cs = some (lexeme, rest) := by
  obtain ⟨found, hfound, hsame⟩ := List.exists_of_findSome?_eq_some hmatch
  obtain ⟨⟨piece, after⟩, hpiece, hpair⟩ := Option.map_eq_some_iff.mp hsame
  cases hpair
  exact ⟨hfound, hpiece⟩

/-- The characters that the lexemes of a terminal start with. -/
def Terminal.starts (terminal : Terminal) (c : Char) : Bool :=
  match terminal with
  | .name => isNameStart c
  | .bareword => isBareChar c
  | .string => c == '"'
  | .star => c == '*'
  | .opening => c == '['
  | .closing => c == ']'
  | .equals => c == '='
  | .comma => c == ','
  | .ending => false

theorem Terminal.Lexeme.exists_start (hlexeme : terminal.Lexeme lexeme) :
    ∃ c tail, lexeme = c :: tail ∧ terminal.starts c = true := by
  cases terminal with
  | name =>
    cases lexeme with
    | nil => cases hlexeme
    | cons c tail => exact ⟨c, tail, rfl, hlexeme.1⟩
  | bareword =>
    cases lexeme with
    | nil => exact (hlexeme.1 rfl).elim
    | cons c tail => exact ⟨c, tail, rfl, hlexeme.2 c (by simp)⟩
  | string =>
    obtain ⟨tail, rfl, _⟩ := hlexeme
    exact ⟨'"', tail, rfl, rfl⟩
  | star => exact ⟨_, _, hlexeme, rfl⟩
  | opening => exact ⟨_, _, hlexeme, rfl⟩
  | closing => exact ⟨_, _, hlexeme, rfl⟩
  | equals => exact ⟨_, _, hlexeme, rfl⟩
  | comma => exact ⟨_, _, hlexeme, rfl⟩
  | ending => cases hlexeme

theorem isBlank_of_starts {c : Char} (hstarts : terminal.starts c = true) :
    isBlank c = false := by
  rw [Bool.eq_false_iff]
  intro hblank
  obtain rfl | rfl : c = ' ' ∨ c = '\t' := by simpa [isBlank] using hblank
  all_goals cases terminal <;> revert hstarts <;> decide

/-- In each state the first character tells which terminal is next. -/
theorem eq_of_starts {other : Terminal} {c : Char} (hexpected : terminal ∈ state.expected)
    (hother : other ∈ state.expected) (hstarts : terminal.starts c = true)
    (hagain : other.starts c = true) : other = terminal := by
  have hname : isNameStart c = true → c ≠ '[' ∧ c ≠ '*' := by
    intro hstart
    constructor <;> rintro rfl <;> revert hstart <;> decide
  have hbare : isBareChar c = true → c ≠ '"' := by
    rintro hbare rfl
    revert hbare
    decide
  cases state <;> simp only [State.expected, List.mem_cons, List.not_mem_nil, or_false] at *
  all_goals grind [Terminal.starts]

/-- A lexeme of an expected terminal is matched by no other one. -/
theorem match?_complete (hexpected : terminal ∈ state.expected)
    (hlexeme : terminal.Lexeme lexeme) (hstops : terminal.Stops rest) :
    state.match? (lexeme ++ rest) = some (terminal, lexeme, rest) := by
  have hmatch := match?_of_lexeme hlexeme hstops
  rcases hfound : state.match? (lexeme ++ rest) with _ | ⟨other, piece, after⟩
  · have hnone := List.findSome?_eq_none_iff.mp hfound terminal hexpected
    rw [hmatch] at hnone
    cases hnone
  · obtain ⟨hother, hagain⟩ := expected_of_match? hfound
    obtain ⟨hsplit, hpiece⟩ := lexeme_of_match? hagain
    obtain ⟨c, tail, rfl, hstarts⟩ := hlexeme.exists_start
    obtain ⟨d, others, rfl, hfirst⟩ := hpiece.exists_start
    obtain rfl : c = d := by
      rw [List.cons_append, List.cons_append] at hsplit
      exact (List.cons.inj hsplit).1
    obtain rfl := eq_of_starts hexpected hother hstarts hfirst
    rw [hmatch] at hagain
    cases hagain
    rfl

end States

section Texts

variable {state : State} {terminal : Terminal} {cs : List Char} {symbols : List Symbol}

/-- Lexemes are laid out without blanks too. -/
theorem laid_flatten (lexemes : List (List Char)) : Laid lexemes lexemes.flatten := by
  induction lexemes with
  | nil => exact .nil (by simp)
  | cons lexeme rest ih => exact @Laid.cons [] lexeme _ rest (by simp) ih

/-- Lexemes laid out one after the other; the blanks between the two texts
    belong to the second. -/
theorem laid_append {lexemes more : List (List Char)} {text rest : List Char}
    (hlaid : Laid lexemes text) (hmore : Laid more rest) :
    Laid (lexemes ++ more) (text ++ rest) := by
  induction hlaid with
  | @nil blanks hblanks =>
    cases hmore with
    | @nil others hothers =>
      exact .nil fun c hc => (List.mem_append.mp hc).elim (hblanks c) (hothers c)
    | @cons others lexeme after lexemes hothers hafter =>
      rw [← List.append_assoc]
      exact .cons (fun c hc => (List.mem_append.mp hc).elim (hblanks c) (hothers c)) hafter
  | @cons blanks lexeme after lexemes hblanks _ ih =>
    rw [List.append_assoc, List.append_assoc]
    exact .cons hblanks ih

/-- A text starts with a blank or with a character of its first symbol. -/
theorem head_of_laid (hruns : Runs state symbols) (hlaid : Laid (symbols.map Prod.snd) cs)
    {c : Char} (hhead : c ∈ cs.head?) :
    isBlank c = true ∨ ∃ next ∈ state.expected, next.starts c = true := by
  cases hruns with
  | nil =>
    rw [List.map_nil] at hlaid
    cases hlaid with
    | nil hblanks => exact Or.inl (hblanks c (List.mem_of_mem_head? hhead))
  | @cons _ next lexeme rest hexpected hlexeme hrest =>
    rw [List.map_cons] at hlaid
    cases hlaid with
    | @cons blanks _ after _ hblanks hafter =>
      cases blanks with
      | nil =>
        obtain ⟨d, tail, hcons, hstarts⟩ := hlexeme.exists_start
        rw [hcons, List.nil_append, List.cons_append, List.head?_cons, Option.mem_some_iff] at hhead
        exact Or.inr ⟨next, hexpected, hhead ▸ hstarts⟩
      | cons blank blanks =>
        rw [List.cons_append, List.head?_cons, Option.mem_some_iff] at hhead
        exact Or.inl (hblanks c (by simp [hhead]))

/-- What stands after a symbol does not continue it: a blank, or one of the
    signs that may come next. -/
theorem stops_of_laid (hexpected : terminal ∈ state.expected)
    (hruns : Runs (state.next terminal) symbols) (hlaid : Laid (symbols.map Prod.snd) cs) :
    terminal.Stops cs := by
  intro c hhead
  have hcases := head_of_laid hruns hlaid hhead
  constructor
  · rintro rfl
    have hsign : c = ' ' ∨ c = '\t' ∨ c = ',' ∨ c = '[' ∨ c = '=' := by
      cases state <;> simp [State.expected, State.next, Terminal.starts, isBlank] at hexpected hcases
      all_goals grind
    rcases hsign with rfl | rfl | rfl | rfl | rfl <;> decide
  · rintro rfl
    have hsign : c = ' ' ∨ c = '\t' ∨ c = ']' := by
      cases state <;> simp [State.expected, State.next, Terminal.starts, isBlank] at hexpected hcases
      all_goals grind
    rcases hsign with rfl | rfl | rfl <;> decide

/-- Where the symbols of a text are found, they stand in an order that the
    states allow, laid out with blanks. -/
theorem scanFrom_sound {fuel offset : Nat} {previous : Option Token} {tokens : List Token}
    (hscan : scanFrom fuel state previous offset cs = .ok tokens) :
    Runs state (tokens.map Token.symbol) ∧ Laid (tokens.map (·.text.toList)) cs := by
  induction fuel generalizing state previous offset cs tokens with
  | zero => cases hscan
  | succ fuel ih =>
    have hblanks : ∀ c ∈ cs.takeWhile isBlank, isBlank c = true :=
      List.all_eq_true.mp List.all_takeWhile
    have hsplit : cs = cs.takeWhile isBlank ++ cs.dropWhile isBlank :=
      List.takeWhile_append_dropWhile.symm
    rw [scanFrom] at hscan
    split at hscan
    · next hnone =>
      split at hscan
      · next hend =>
        cases hscan
        rw [hsplit, hnone, List.append_nil]
        exact ⟨.nil (by simpa using hend), .nil hblanks⟩
      · cases hscan
    · next rest =>
      split at hscan
      · cases hscan
      · next terminal lexeme after hmatch =>
        obtain ⟨later, hlater, hsame⟩ := bind_eq_ok_iff.mp hscan
        cases hsame
        obtain ⟨hexpected, hmatch⟩ := expected_of_match? hmatch
        obtain ⟨hcut, hlexeme⟩ := lexeme_of_match? hmatch
        obtain ⟨hruns, hlaid⟩ := ih hlater
        rw [hsplit, hcut]
        simp only [List.map_cons, Token.symbol, String.toList_ofList]
        exact ⟨.cons hexpected hlexeme hruns, .cons hblanks hlaid⟩

/-- An expected symbol that is not continued is taken from the text, with the
    blanks before it. -/
theorem scanFrom_symbol {fuel offset : Nat} {previous : Option Token}
    {blanks lexeme after : List Char} (hblanks : ∀ c ∈ blanks, isBlank c = true)
    (hexpected : terminal ∈ state.expected) (hlexeme : terminal.Lexeme lexeme)
    (hstops : terminal.Stops after) :
    scanFrom (fuel + 1) state previous offset (blanks ++ (lexeme ++ after)) =
      (do let token : Token := ⟨terminal, String.ofList lexeme, offset + blanks.length⟩
          let tokens ← scanFrom fuel (state.next terminal) (some token)
            (offset + blanks.length + lexeme.length) after
          pure (token :: tokens)) := by
  have hmatch := match?_complete hexpected hlexeme hstops
  obtain ⟨c, tail, hcons, hstarts⟩ := hlexeme.exists_start
  have hhead : ∀ d ∈ (lexeme ++ after).head?, isBlank d = false := by
    intro d hd
    rw [hcons, List.cons_append, List.head?_cons, Option.mem_some_iff] at hd
    exact hd ▸ isBlank_of_starts hstarts
  obtain ⟨htake, hdrop⟩ := takeWhile_of_head hblanks hhead
  rw [scanFrom, hdrop, htake]
  split
  · next hempty => simp [hcons] at hempty
  · rw [hmatch]

theorem scanFrom_complete (hruns : Runs state symbols) {fuel offset : Nat}
    {previous : Option Token} (hlaid : Laid (symbols.map Prod.snd) cs)
    (hfuel : cs.length < fuel) :
    ∃ tokens, scanFrom fuel state previous offset cs = .ok tokens ∧
      tokens.map Token.symbol = symbols := by
  induction hruns generalizing fuel offset previous cs with
  | nil hend =>
    obtain ⟨fuel, rfl⟩ : ∃ less, fuel = less + 1 := ⟨fuel - 1, by omega⟩
    rw [List.map_nil] at hlaid
    cases hlaid with
    | nil hblanks =>
      have hnone : cs.dropWhile isBlank = [] := by
        simpa using (@takeWhile_of_head cs [] isBlank hblanks (by simp)).2
      refine ⟨[], ?_, rfl⟩
      rw [scanFrom, hnone]
      simp [hend, pure, Except.pure]
  | @cons state terminal lexeme rest hexpected hlexeme hrest ih =>
    obtain ⟨fuel, rfl⟩ : ∃ less, fuel = less + 1 := ⟨fuel - 1, by omega⟩
    rw [List.map_cons] at hlaid
    cases hlaid with
    | @cons blanks _ after _ hblanks hafter =>
      have hstops := stops_of_laid hexpected hrest hafter
      obtain ⟨c, tail, hcons, _⟩ := hlexeme.exists_start
      have hless : after.length < fuel := by
        simp only [hcons, List.length_append, List.length_cons] at hfuel
        omega
      obtain ⟨tokens, hscan, hsymbols⟩ := @ih _ fuel (offset + blanks.length + lexeme.length)
        (some ⟨terminal, String.ofList lexeme, offset + blanks.length⟩) hafter hless
      refine ⟨⟨terminal, String.ofList lexeme, offset + blanks.length⟩ :: tokens, ?_, ?_⟩
      · rw [scanFrom_symbol hblanks hexpected hlexeme hstops]
        simp only [hscan]
        rfl
      · rw [List.map_cons, hsymbols, Token.symbol, String.toList_ofList]

end Texts

end Lineage.Selector
