import Lineage.Proofs.Selector.Parsing

namespace Lineage.Selector

/-- A text that is read from a state on as symbols, with `rest` left over in the
    state `last`. No symbol is continued by what follows it. -/
inductive ReadsBefore (rest : List Char) (last : State) :
    State → List Symbol → List Char → Prop where
  | blanks {blanks : List Char} (hblanks : ∀ c ∈ blanks, isBlank c = true) :
      ReadsBefore rest last last [] blanks
  | symbol {state : State} {terminal : Terminal} {blanks lexeme after : List Char}
      {symbols : List Symbol} (hblanks : ∀ c ∈ blanks, isBlank c = true)
      (hexpected : terminal ∈ state.expected) (hlexeme : terminal.Lexeme lexeme)
      (hstops : terminal.Stops (after ++ rest))
      (hafter : ReadsBefore rest last (state.next terminal) symbols after) :
      ReadsBefore rest last state ((terminal, lexeme) :: symbols) (blanks ++ (lexeme ++ after))

/-- The quoted values in a text, from left to right. -/
inductive Quotes : List Char → List (List Char) → Prop where
  | nil : Quotes [] []
  | other {c : Char} {text : List Char} {values : List (List Char)} (hother : c ≠ '"')
      (hrest : Quotes text values) : Quotes (c :: text) values
  | value {tail text : List Char} {values : List (List Char)}
      (hquoted : quotedTail false tail = some (tail, [])) (hrest : Quotes text values) :
      Quotes ('"' :: (tail ++ text)) (('"' :: tail) :: values)

/-- A quoted value that is a string of a document. -/
def IsDocumentString (value : List Char) : Prop :=
  ∃ text chars, value = '"' :: (text ++ ['"']) ∧ Json.Between text chars

/-- A text that some selector starts with, if the quoted values in the text are
    strings of documents. -/
def Viable (text : List Char) : Prop :=
  (∀ values, Quotes text values → ∀ value ∈ values, IsDocumentString value) →
    ∃ more test, parse (String.ofList (text ++ more)) = .ok test

/-- What is left over where a mistake was found: nothing, or what starts with a
    character of no symbol that is expected. -/
def Mistake.BreaksAt (mistake : Mistake) : List Char → Prop
  | [] => mistake.found = .ending
  | c :: rest =>
    isBlank c = false ∧ mistake.state.match? (c :: rest) = none ∧
      mistake.found = .at mistake.offset (c :: rest)

/-- The message about a mistake gives a line and a column. -/
def Mistake.Reports (mistake : Mistake) (selector : String) (line column : Nat) : Prop :=
  ∃ rest, (Error.mistake mistake).message selector =
    match mistake.found with
    | .token token =>
      "Invalid selector: Unexpected token " ++ token.shown ++ " at line " ++ toString line ++
        ", column " ++ toString column ++ ".\n" ++ rest
    | .character c =>
      "Invalid selector: No terminal matches '" ++ c.toString ++
        "' in the current parser context, at line " ++ toString line ++ " col " ++
        toString column ++ "\n" ++ rest
    | .ending =>
      "Invalid selector: Unexpected token Token('$END', '') at line " ++ toString line ++
        ", column " ++ toString column ++ ".\n" ++ rest

section Reading

variable {state last : State} {symbols : List Symbol} {text rest : List Char}

theorem ReadsBefore.laid (hreads : ReadsBefore rest last state symbols text) :
    Laid (symbols.map Prod.snd) text := by
  induction hreads with
  | blanks hblanks => exact .nil hblanks
  | symbol hblanks _ _ _ _ ih => exact .cons hblanks ih

/-- What may follow in the last state makes the symbols complete. -/
theorem ReadsBefore.runs (hreads : ReadsBefore rest last state symbols text)
    {others : List Symbol} (hothers : Runs last others) : Runs state (symbols ++ others) := by
  induction hreads with
  | blanks => exact hothers
  | symbol _ hexpected hlexeme _ _ ih => exact .cons hexpected hlexeme ih

/-- Only the first character of what is left over tells whether the last symbol
    ends before it. -/
theorem ReadsBefore.congr {c : Char} {others : List Char}
    (hreads : ReadsBefore (c :: rest) last state symbols text) :
    ReadsBefore (c :: others) last state symbols text := by
  induction hreads with
  | blanks hblanks => exact .blanks hblanks
  | @symbol state terminal blanks lexeme after symbols hblanks hexpected hlexeme hstops _ ih =>
    refine .symbol hblanks hexpected hlexeme ?_ ih
    intro d hd
    apply hstops d
    cases after <;> exact hd

/-- A scan that ends in a mistake has read what stands before it. The induction
    is on the fuel, of which there is more than there are characters. -/
theorem readsBefore_of_scanFrom {cs : List Char} {fuel offset : Nat} {previous : Option Token}
    {mistake : Mistake} (hscan : scanFrom fuel state previous offset cs = .error mistake)
    (hfuel : cs.length < fuel) :
    ∃ symbols text rest, cs = text ++ rest ∧
      ReadsBefore rest mistake.state state symbols text ∧
      mistake.offset = offset + text.length ∧ mistake.BreaksAt rest := by
  induction fuel generalizing state previous offset cs with
  | zero => omega
  | succ fuel ih =>
    have hblanks : ∀ c ∈ cs.takeWhile isBlank, isBlank c = true :=
      List.all_eq_true.mp List.all_takeWhile
    have hsplit : cs = cs.takeWhile isBlank ++ cs.dropWhile isBlank :=
      List.takeWhile_append_dropWhile.symm
    rw [scanFrom] at hscan
    split at hscan
    · next hnone =>
      split at hscan
      · cases hscan
      · cases hscan
        refine ⟨[], _, [], ?_, .blanks hblanks, rfl, rfl⟩
        rw [← hnone]
        exact hsplit
    · next rest hsome =>
      split at hscan
      · next hmatch =>
        cases hscan
        refine ⟨[], _, _, hsplit, .blanks hblanks, rfl, ?_⟩
        have hhead := List.head?_dropWhile_not isBlank cs
        cases hrest : cs.dropWhile isBlank with
        | nil => exact (hsome hrest).elim
        | cons c tail =>
          rw [hrest] at hhead hmatch
          exact ⟨hhead, hmatch, rfl⟩
      · next terminal lexeme after hmatch =>
        obtain ⟨hexpected, hmatch⟩ := expected_of_match? hmatch
        obtain ⟨hcut, hlexeme⟩ := lexeme_of_match? hmatch
        obtain ⟨c, tail, hcons, _⟩ := hlexeme.exists_start
        have hless : after.length < fuel := by
          have hlength := congrArg List.length hsplit
          simp only [hcut, hcons, List.length_append, List.length_cons] at hlength
          omega
        rcases bind_eq_error_iff.mp hscan with hscan | ⟨_, _, hscan⟩
        · obtain ⟨symbols, text, rest, rfl, hreads, hoffset, hbreaks⟩ := ih hscan hless
          refine ⟨(terminal, lexeme) :: symbols, cs.takeWhile isBlank ++ (lexeme ++ text), rest,
            ?_, .symbol hblanks hexpected hlexeme (stops_of_match? hmatch) hreads, ?_, hbreaks⟩
          · rw [hcut] at hsplit
            simpa using hsplit
          · simp only [hoffset, List.length_append]
            omega
        · cases hscan

/-- Where a text with the same start is read, something expected stands where
    the reading of the start ends. -/
theorem ReadsBefore.exists_match {c : Char} {fuel offset : Nat} {previous : Option Token}
    {tokens : List Token} (hreads : ReadsBefore (c :: rest) last state symbols text)
    (hblank : isBlank c = false)
    (hscan : scanFrom fuel state previous offset (text ++ c :: rest) = .ok tokens) :
    ∃ found, last.match? (c :: rest) = some found := by
  induction hreads generalizing fuel offset previous tokens with
  | @blanks blanks hblanks =>
    cases fuel with
    | zero => cases hscan
    | succ fuel =>
      have hhead : ∀ d ∈ (c :: rest).head?, isBlank d = false := by simpa using hblank
      rw [scanFrom, (takeWhile_of_head hblanks hhead).2] at hscan
      cases hmatch : last.match? (c :: rest) with
      | none => simp [hmatch, throw, throwThe, MonadExceptOf.throw] at hscan
      | some found => exact ⟨found, rfl⟩
  | @symbol state terminal blanks lexeme after symbols hblanks hexpected hlexeme hstops _ ih =>
    cases fuel with
    | zero => cases hscan
    | succ fuel =>
      rw [List.append_assoc, List.append_assoc,
        scanFrom_symbol hblanks hexpected hlexeme hstops] at hscan
      obtain ⟨later, hlater, _⟩ := bind_eq_ok_iff.mp hscan
      exact ih hlater

end Reading

section Offence

variable {state : State} {terminal : Terminal} {c : Char} {rest others : List Char}

/-- The first character alone tells whether a terminal matches, unless it opens
    a quoted value. -/
theorem exists_match?_of_starts (hstarts : terminal.starts c = true)
    (hunquoted : terminal ≠ .string) : ∃ found, terminal.match? (c :: rest) = some found := by
  cases terminal with
  | name => exact ⟨_, if_pos hstarts⟩
  | bareword =>
    have htake : (c :: rest).takeWhile isBareChar = c :: rest.takeWhile isBareChar :=
      List.takeWhile_cons_of_pos hstarts
    refine ⟨(c :: rest.takeWhile isBareChar, (c :: rest).dropWhile isBareChar), ?_⟩
    rw [Terminal.match?, run?, htake]
  | string => exact (hunquoted rfl).elim
  | ending => cases hstarts
  | _ => exact ⟨_, if_pos hstarts⟩

/-- Where nothing expected stands, nothing would with another continuation,
    except that a quote opens a value that has no end. -/
theorem unterminated_of_match? {found : Terminal × List Char × List Char}
    (hnone : state.match? (c :: rest) = none) (hsome : state.match? (c :: others) = some found) :
    c = '"' ∧ state = .value ∧ quotedTail false rest = none := by
  obtain ⟨terminal, lexeme, after⟩ := found
  obtain ⟨hexpected, hmatch⟩ := expected_of_match? hsome
  obtain ⟨hcut, hlexeme⟩ := lexeme_of_match? hmatch
  obtain ⟨d, tail, rfl, hstarts⟩ := hlexeme.exists_start
  obtain rfl : c = d := (List.cons.inj hcut).1
  have hrefused : terminal.match? (c :: rest) = none :=
    Option.map_eq_none_iff.mp (List.findSome?_eq_none_iff.mp hnone terminal hexpected)
  by_cases hquoted : terminal = .string
  · subst hquoted
    obtain rfl : c = '"' := by simpa [Terminal.starts] using hstarts
    refine ⟨rfl, ?_, Option.map_eq_none_iff.mp hrefused⟩
    cases state <;> revert hexpected <;> decide
  · obtain ⟨found, hfound⟩ := @exists_match?_of_starts terminal c rest hstarts hquoted
    rw [hfound] at hrefused
    cases hrefused

end Offence

section Completion

variable {lexemes : List (List Char)}

/-- Symbols that complete a selector from a state on. -/
def State.completion : State → List Symbol
  | item => [(.star, ['*'])]
  | afterItem => []
  | key => [(.name, ['k']), (.equals, ['=']), (.bareword, ['v']), (.closing, [']'])]
  | equals => [(.equals, ['=']), (.bareword, ['v']), (.closing, [']'])]
  | value => [(.bareword, ['v']), (.closing, [']'])]
  | closing => [(.closing, [']'])]

theorem runs_completion (state : State) : Runs state state.completion := by
  have hend : Runs .afterItem [] := .nil (by decide)
  have hclosing : Runs .closing State.closing.completion := .cons (by decide) rfl hend
  have hvalue : Runs .value State.value.completion :=
    .cons (by decide) ⟨by decide, List.forall_mem_singleton.mpr (by decide)⟩ hclosing
  have hequals : Runs .equals State.equals.completion := .cons (by decide) rfl hvalue
  cases state with
  | item => exact .cons (by decide) rfl hend
  | afterItem => exact hend
  | key => exact .cons (by decide) ⟨by decide, List.forall_mem_nil _⟩ hequals
  | equals => exact hequals
  | value => exact hvalue
  | closing => exact hclosing

/-- No quoted value is needed to complete a selector. -/
theorem unquoted_completion (state : State) :
    ∀ lexeme ∈ state.completion.map Prod.snd, lexeme.head? ≠ some '"' := by
  cases state <;> decide

end Completion

section Values

variable {α β : Type} {reads : List Char → α → Prop} {readsToo : List Char → β → Prop}
  {lexemes : List (List Char)}
  (hreads : ∀ lexeme ∈ lexemes, ∀ a, reads lexeme a → ∃ b, readsToo lexeme b)

include hreads

/-- If every value can be read in another way too, so can the predicates. -/
theorem WritesPredicates.exists_of_values {predicates : List (String × α)}
    (hwrites : WritesPredicates reads lexemes predicates) :
    ∃ others, WritesPredicates readsToo lexemes others ∧ (others = [] → predicates = []) := by
  induction hwrites with
  | nil => exact ⟨[], .nil, fun _ => rfl⟩
  | @cons key value a lexemes predicates hkey hvalue _ ih =>
    obtain ⟨b, hb⟩ := hreads value (by simp) a hvalue
    obtain ⟨others, hothers, _⟩ := ih fun lexeme hlexeme => hreads lexeme (by simp [hlexeme])
    exact ⟨_, .cons hkey hb hothers, fun hnil => (List.cons_ne_nil _ _ hnil).elim⟩

theorem WritesClause.exists_of_values {clause : Clause α}
    (hwrites : WritesClause reads lexemes clause) :
    ∃ other, WritesClause readsToo lexemes other := by
  cases hwrites with
  | @named name lexemes predicates hname hpredicates =>
    obtain ⟨others, hothers, _⟩ := hpredicates.exists_of_values fun lexeme hlexeme =>
      hreads lexeme (by simp [hlexeme])
    exact ⟨_, .named hname hothers⟩
  | @anyType lexemes predicates hpredicates =>
    obtain ⟨others, hothers, _⟩ := hpredicates.exists_of_values fun lexeme hlexeme =>
      hreads lexeme (by simp [hlexeme])
    exact ⟨_, .anyType hothers⟩
  | untyped hpredicates hsome =>
    obtain ⟨others, hothers, hnil⟩ := hpredicates.exists_of_values hreads
    exact ⟨_, .untyped hothers fun hnone => hsome (hnil hnone)⟩

theorem WritesClauses.exists_of_values {clauses : List (Clause α)}
    (hwrites : WritesClauses reads lexemes clauses) :
    ∃ others, WritesClauses readsToo lexemes others := by
  induction hwrites with
  | last hclause =>
    obtain ⟨other, hother⟩ := hclause.exists_of_values hreads
    exact ⟨[other], .last hother⟩
  | @cons lexemes more clause clauses hclause _ ih =>
    obtain ⟨other, hother⟩ := hclause.exists_of_values fun lexeme hlexeme =>
      hreads lexeme (by simp [hlexeme])
    obtain ⟨others, hothers⟩ := ih fun lexeme hlexeme => hreads lexeme (by simp [hlexeme])
    exact ⟨other :: others, .cons hother hothers⟩

end Values

section Quotes

variable {state last : State} {symbols : List Symbol} {text rest : List Char}

/-- A lexeme is a quoted value, or has no quote in it. -/
theorem Terminal.Lexeme.quote_cases {terminal : Terminal} {lexeme : List Char}
    (hlexeme : terminal.Lexeme lexeme) :
    (∃ tail, lexeme = '"' :: tail ∧ quotedTail false tail = some (tail, [])) ∨ '"' ∉ lexeme := by
  cases terminal with
  | string => exact Or.inl hlexeme
  | name =>
    refine Or.inr fun hquote => ?_
    cases lexeme with
    | nil => cases hlexeme
    | cons c tail =>
      rcases List.mem_cons.mp hquote with rfl | hmem
      · exact absurd hlexeme.1 (by decide)
      · exact absurd (hlexeme.2 _ hmem) (by decide)
  | bareword => exact Or.inr fun hquote => absurd (hlexeme.2 _ hquote) (by decide)
  | ending => cases hlexeme
  | _ =>
    obtain rfl := hlexeme
    exact Or.inr (by decide)

theorem Quotes.skip {plain : List Char} {values : List (List Char)} (hplain : '"' ∉ plain)
    (hquotes : Quotes text values) : Quotes (plain ++ text) values := by
  induction plain with
  | nil => exact hquotes
  | cons c plain ih =>
    rw [List.mem_cons, not_or] at hplain
    exact .other (Ne.symm hplain.1) (ih hplain.2)

/-- The quoted values in a text that is read are the lexemes that start with a
    quote. -/
theorem ReadsBefore.quotes (hreads : ReadsBefore rest last state symbols text) :
    Quotes text ((symbols.map Prod.snd).filter fun lexeme => lexeme.head? = some '"') := by
  have hblank : ∀ {blanks : List Char}, (∀ c ∈ blanks, isBlank c = true) → '"' ∉ blanks :=
    fun hblanks hquote => absurd (hblanks _ hquote) (by decide)
  induction hreads with
  | @blanks blanks hblanks =>
    have hquotes := Quotes.nil.skip (hblank hblanks)
    rwa [List.append_nil] at hquotes
  | @symbol state terminal blanks lexeme after symbols hblanks hexpected hlexeme hstops _ ih =>
    apply Quotes.skip (hblank hblanks)
    rw [List.map_cons]
    rcases hlexeme.quote_cases with ⟨tail, rfl, hquoted⟩ | hplain
    · rw [List.filter_cons_of_pos (by simp)]
      exact .value hquoted ih
    · rw [List.filter_cons_of_neg]
      · exact ih.skip hplain
      · simp only [decide_eq_true_eq]
        exact fun hhead => hplain (List.mem_of_mem_head? hhead)

/-- A literal is a value if it is not quoted, or else a string of a document. -/
theorem exists_value_of_literal {lexeme : List Char} {literal : Literal}
    (hwrites : WritesLiteral lexeme literal)
    (hstring : lexeme.head? = some '"' → IsDocumentString lexeme) :
    ∃ scalar, WritesValue lexeme scalar := by
  cases hwrites with
  | bare hbare => exact ⟨_, .bare hbare⟩
  | quoted hquoted =>
    obtain ⟨text, chars, htext, hbetween⟩ := hstring rfl
    rw [htext]
    exact ⟨_, .quoted hbetween⟩

/-- Symbols in an order that the states allow are a selector when they are laid
    out, if the quoted ones are strings of documents. -/
theorem parse_of_runs (hruns : Runs .item symbols) (hlaid : Laid (symbols.map Prod.snd) text)
    (hstrings : ∀ lexeme ∈ symbols.map Prod.snd, lexeme.head? = some '"' →
      IsDocumentString lexeme) :
    ∃ test, parse (String.ofList text) = .ok test := by
  let tokens := symbols.map fun symbol => Token.mk symbol.1 (String.ofList symbol.2) 0
  have hsymbols : tokens.map Token.symbol = symbols := by
    simp [tokens, Token.symbol, Function.comp_def]
  have hlexemes : tokens.map (·.text.toList) = symbols.map Prod.snd := by
    simp [tokens, Function.comp_def]
  rw [← hsymbols] at hruns
  have hliterals := clauses_of_runs hruns
  rw [hlexemes] at hliterals
  obtain ⟨clauses, hclauses⟩ := hliterals.exists_of_values fun lexeme hlexeme _ hwrites =>
    exists_value_of_literal hwrites (hstrings lexeme hlexeme)
  exact ⟨_, parse_of_writes ⟨_, by rwa [String.toList_ofList], hclauses⟩⟩

/-- What was read up to a place can be completed there. -/
theorem ReadsBefore.viable (hreads : ReadsBefore rest last .item symbols text) : Viable text := by
  intro hstrings
  have hlaid := laid_append hreads.laid (laid_flatten (last.completion.map Prod.snd))
  rw [← List.map_append] at hlaid
  refine ⟨_, parse_of_runs (hreads.runs (runs_completion last)) hlaid ?_⟩
  intro lexeme hlexeme hquote
  rw [List.map_append, List.mem_append] at hlexeme
  rcases hlexeme with hread | hadded
  · exact hstrings _ hreads.quotes lexeme (List.mem_filter.mpr ⟨hread, by simpa using hquote⟩)
  · exact (unquoted_completion last lexeme hadded hquote).elim

end Quotes

section Report

variable {selector : String} {mistake : Mistake}

/-- What stands at a place is called a symbol there or a character. -/
theorem found_at_cons (offset : Nat) (c : Char) (rest : List Char) :
    (∃ terminal lexeme, Found.at offset (c :: rest) = .token ⟨terminal, lexeme, offset⟩) ∨
      Found.at offset (c :: rest) = .character c := by
  cases hany : anyTerminal? (c :: rest) with
  | none =>
    right
    simp only [Found.at, hany]
  | some found =>
    left
    refine ⟨found.1, String.ofList found.2, ?_⟩
    simp only [Found.at, hany]

theorem message_mistake (mistake : Mistake) (selector : String) :
    (Error.mistake mistake).message selector = "Invalid selector: " ++ mistake.message selector :=
  rfl

/-- The place of what was found is the one that is reported. -/
theorem reports_of_found {c : Char} {rest : List Char}
    (hfound : mistake.found = .at mistake.offset (c :: rest)) :
    mistake.Reports selector 1 (mistake.offset + 1) := by
  rcases found_at_cons mistake.offset c rest with ⟨terminal, lexeme, htoken⟩ | hcharacter
  · rw [htoken] at hfound
    have hstart : "Invalid selector: Unexpected token " =
      "Invalid selector: " ++ "Unexpected token " := rfl
    have hline : " at line 1, column " = " at line " ++ toString 1 ++ ", column " := rfl
    simp only [Mistake.Reports, message_mistake, Mistake.message, hfound]
    rw [hstart, hline]
    simp only [String.append_assoc, -String.reduceAppend]
    exact ⟨_, rfl⟩
  · rw [hcharacter] at hfound
    have hstart : "Invalid selector: No terminal matches '" =
      "Invalid selector: " ++ "No terminal matches '" := rfl
    have hline : "' in the current parser context, at line 1 col " =
      "' in the current parser context, at line " ++ toString 1 ++ " col " := rfl
    have hbreaks : "\n\n" = "\n" ++ "\n" := rfl
    simp only [Mistake.Reports, message_mistake, Mistake.message, hfound]
    rw [hstart, hline, hbreaks]
    simp only [String.append_assoc, -String.reduceAppend]
    exact ⟨_, rfl⟩

/-- A result that, if it is an error, is one about a quoted value. -/
def BlamesString {α : Type} (result : Except Error α) : Prop :=
  ∀ error, result = .error error → ∃ raw reason, error = .badString raw reason

theorem BlamesString.pure {α : Type} (a : α) : BlamesString (Pure.pure a) := by
  rintro error ⟨⟩

theorem BlamesString.bind {α β : Type} {first : Except Error α} {next : α → Except Error β}
    (hfirst : BlamesString first) (hnext : ∀ a, BlamesString (next a)) :
    BlamesString (first >>= next) := by
  intro error herror
  rcases bind_eq_error_iff.mp herror with herror | ⟨a, _, herror⟩
  · exact hfirst error herror
  · exact hnext a error herror

theorem blamesString_value (literal : Literal) : BlamesString literal.value := by
  cases literal with
  | bare raw => exact .pure _
  | quoted raw =>
    intro error herror
    rw [Literal.value] at herror
    split at herror
    · cases herror
    · cases herror
      exact ⟨_, _, rfl⟩

theorem blamesString_addPredicates (predicates : List (String × Literal))
    (fields : List (String × Datum)) : BlamesString (addPredicates predicates fields) := by
  induction predicates generalizing fields with
  | nil => exact .pure _
  | cons predicate rest ih => exact .bind (blamesString_value _) fun _ => ih _

/-- Once the symbols of a selector are read, only its quoted values can be
    refused. -/
theorem blamesString_testOf (alternatives : List Alternative) :
    BlamesString (testOf alternatives) := by
  have htest : ∀ alternative : Alternative, BlamesString alternative.test := by
    intro alternative
    refine .bind (blamesString_addPredicates _ _) fun properties => ?_
    split <;> exact .pure _
  have htests : BlamesString (alternatives.mapM Alternative.test) := by
    induction alternatives with
    | nil => exact .pure _
    | cons alternative rest ih =>
      rw [List.mapM_cons]
      exact .bind (htest alternative) fun _ => .bind ih fun _ => .pure _
  refine .bind htests fun tests => ?_
  split <;> exact .pure _

theorem parse_eq (selector : String) : parse selector =
    match scan selector with
    | .ok tokens => testOf ((splitCommas tokens).map Alternative.ofTokens)
    | .error mistake => .error (.mistake mistake) := by
  rw [parse, alternatives]
  cases scan selector <;> rfl

theorem scan_of_mistake (hparse : parse selector = .error (.mistake mistake)) :
    scan selector = .error mistake := by
  rw [parse_eq] at hparse
  split at hparse
  · obtain ⟨_, _, hblames⟩ := blamesString_testOf _ _ hparse
    cases hblames
  · next hscan =>
    cases hparse
    exact hscan

theorem exists_scan_of_parse {test : Datum} (hparse : parse selector = .ok test) :
    ∃ tokens, scan selector = .ok tokens := by
  rw [parse_eq] at hparse
  split at hparse
  · exact ⟨_, ‹_›⟩
  · cases hparse

/-- A message about a mistake points at the first place where the text goes
    wrong: what stands before it can be completed to a selector, if the quoted
    values in it are strings of documents, but not with the character there,
    unless this is a quote that opens a value without an end. If the end of the
    text is the mistake, the text itself can be completed. -/
theorem mistake_points_at_first_offence (hparse : parse selector = .error (.mistake mistake)) :
    (mistake.found = .ending → Viable selector.toList) ∧
    (mistake.found ≠ .ending → ∃ place c,
      mistake.Reports selector 1 (place + 1) ∧ selector.toList[place]? = some c ∧
      Viable (selector.toList.take place) ∧
      ∀ more test, parse (String.ofList (selector.toList.take (place + 1) ++ more)) = .ok test →
        c = '"' ∧ mistake.state = .value ∧
          quotedTail false (selector.toList.drop (place + 1)) = none) := by
  obtain ⟨symbols, text, rest, htext, hreads, hoffset, hbreaks⟩ :=
    readsBefore_of_scanFrom (scan_of_mistake hparse) (Nat.lt_succ_self _)
  rw [htext]
  cases rest with
  | nil =>
    refine ⟨fun _ => ?_, fun hfound => (hfound hbreaks).elim⟩
    rw [List.append_nil]
    exact hreads.viable
  | cons c rest =>
    obtain ⟨hblank, hnone, hfound⟩ := hbreaks
    refine ⟨fun hending => ?_, fun _ => ⟨text.length, c, ?_, by simp, ?_, ?_⟩⟩
    · rcases found_at_cons mistake.offset c rest with ⟨_, _, htoken⟩ | hcharacter
      · rw [hfound, htoken] at hending
        cases hending
      · rw [hfound, hcharacter] at hending
        cases hending
    · have hreports := @reports_of_found selector _ _ _ hfound
      rwa [hoffset, Nat.zero_add] at hreports
    · rw [List.take_left]
      exact hreads.viable
    · intro more test hmore
      have htake : (text ++ c :: rest).take (text.length + 1) ++ more = text ++ c :: more := by
        rw [List.take_length_add_append]
        simp
      have hdrop : (text ++ c :: rest).drop (text.length + 1) = rest := by
        rw [List.drop_length_add_append]
        rfl
      rw [htake] at hmore
      rw [hdrop]
      obtain ⟨tokens, hscan⟩ := exists_scan_of_parse hmore
      rw [scan, String.toList_ofList] at hscan
      obtain ⟨found, hmatch⟩ := hreads.congr.exists_match hblank hscan
      exact unterminated_of_match? hnone hmatch

/-- The mistake in a selector with another type after its predicate. -/
def strayType : Mistake :=
  ⟨.afterItem, some ⟨.closing, "]", 7⟩, 9, .token ⟨.name, "q", 9⟩⟩

theorem strayType_points_at_first_offence :
    parse "p[s=\"x\"] q" = .error (.mistake strayType) ∧ strayType.found ≠ .ending ∧
    ∃ place c,
      strayType.Reports "p[s=\"x\"] q" 1 (place + 1) ∧
      "p[s=\"x\"] q".toList[place]? = some c ∧
      Viable ("p[s=\"x\"] q".toList.take place) ∧
      ∀ more test,
        parse (String.ofList ("p[s=\"x\"] q".toList.take (place + 1) ++ more)) = .ok test →
        c = '"' ∧ strayType.state = .value ∧
          quotedTail false ("p[s=\"x\"] q".toList.drop (place + 1)) = none := by
  have hparse : parse "p[s=\"x\"] q" = .error (.mistake strayType) := by cbv
  have hfound : strayType.found ≠ .ending := by simp [strayType]
  exact ⟨hparse, hfound, (mistake_points_at_first_offence hparse).2 hfound⟩

end Report

end Lineage.Selector
