import Lineage.Proofs.Selector.Scanning

namespace Lineage.Selector

/-- A literal and how it is written; whether a quoted one is a string of a
    document is not asked. -/
inductive WritesLiteral : List Char → Literal → Prop where
  | bare {cs : List Char} (hbare : IsBareword cs) : WritesLiteral cs (.bare (String.ofList cs))
  | quoted {tail : List Char} (hquoted : quotedTail false tail = some (tail, [])) :
      WritesLiteral ('"' :: tail) (.quoted (String.ofList ('"' :: tail)))

/-- An alternative with its values as they were read. -/
def Clause.ofTokens (tokens : List Token) : Clause Literal :=
  ⟨(Alternative.ofTokens tokens).type, (Alternative.ofTokens tokens).predicates⟩

theorem WritesPredicates.eq_nil {α : Type} {reads : List Char → α → Prop}
    {lexemes : List (List Char)} (hwrites : WritesPredicates reads lexemes []) : lexemes = [] := by
  cases hwrites
  rfl

theorem WritesPredicates.nil_of_nil {α : Type} {reads : List Char → α → Prop}
    {predicates : List (String × α)} (hwrites : WritesPredicates reads [] predicates) :
    predicates = [] := by
  cases hwrites
  rfl

section Commas

variable {group more : List Token} {comma : Token}

/-- Symbols without a comma among them are one group. -/
theorem splitCommas_group (hgroup : ∀ token ∈ group, token.terminal ≠ .comma) :
    splitCommas group = [group] := by
  induction group with
  | nil => rfl
  | cons token rest ih =>
    obtain ⟨htoken, hrest⟩ := List.forall_mem_cons.mp hgroup
    rw [splitCommas, if_neg htoken, ih hrest]

theorem splitCommas_comma (hgroup : ∀ token ∈ group, token.terminal ≠ .comma)
    (hcomma : comma.terminal = .comma) :
    splitCommas (group ++ comma :: more) = group :: splitCommas more := by
  induction group with
  | nil => rw [List.nil_append, splitCommas, if_pos hcomma]
  | cons token rest ih =>
    obtain ⟨htoken, hrest⟩ := List.forall_mem_cons.mp hgroup
    rw [List.cons_append, splitCommas, if_neg htoken, ih hrest]

end Commas

section Sound

variable {state : State} {tokens : List Token}

/-- Where the text may not end, there is a symbol that is expected. -/
theorem Runs.uncons (hruns : Runs state (tokens.map Token.symbol))
    (hgoes : .ending ∉ state.expected) :
    ∃ token rest, tokens = token :: rest ∧ token.terminal ∈ state.expected ∧
      token.terminal.Lexeme token.text.toList ∧
      Runs (state.next token.terminal) (rest.map Token.symbol) := by
  cases tokens with
  | nil =>
    cases hruns with
    | nil hend => exact (hgoes hend).elim
  | cons token rest =>
    cases hruns with
    | cons hexpected hlexeme hrest => exact ⟨token, rest, rfl, hexpected, hlexeme, hrest⟩

theorem writesLiteral_of_lexeme {token : Token} (hvalue : token.terminal ∈ State.value.expected)
    (hlexeme : token.terminal.Lexeme token.text.toList) :
    WritesLiteral token.text.toList token.literal := by
  obtain ⟨terminal, text, start⟩ := token
  obtain rfl | rfl : terminal = .bareword ∨ terminal = .string := by
    simpa [State.expected] using hvalue
  · have hwrites := WritesLiteral.bare hlexeme
    rwa [String.ofList_toList] at hwrites
  · obtain ⟨tail, htext, hquoted⟩ := hlexeme
    have hwrites := WritesLiteral.quoted hquoted
    rw [← htext, String.ofList_toList] at hwrites
    exact hwrites

/-- What stands between the brackets of a predicate, and the closing one. -/
theorem Runs.bracket (hruns : Runs .key (tokens.map Token.symbol)) :
    ∃ key equals value closing rest, tokens = key :: equals :: value :: closing :: rest ∧
      IsName key.text.toList ∧ equals.text.toList = ['='] ∧
      WritesLiteral value.text.toList value.literal ∧ closing.text.toList = [']'] ∧
      (∀ token ∈ [key, equals, value, closing], token.terminal ≠ .comma) ∧
      Runs .afterItem (rest.map Token.symbol) := by
  obtain ⟨key, rest, rfl, hkey, hname, hrest⟩ := hruns.uncons (by decide)
  obtain ⟨equals, rest, rfl, hequals, hsign, hrest⟩ :=
    (show Runs .equals _ from hrest).uncons (by decide)
  obtain ⟨value, rest, rfl, hvalue, hwritten, hrest⟩ :=
    (show Runs .value _ from hrest).uncons (by decide)
  obtain ⟨closing, rest, rfl, hclosing, hend, hrest⟩ :=
    (show Runs .closing _ from hrest).uncons (by decide)
  have hliteral := writesLiteral_of_lexeme hvalue hwritten
  simp only [State.expected, List.mem_cons, List.not_mem_nil, or_false] at hkey hequals hvalue hclosing
  rw [hkey] at hname
  rw [hequals] at hsign
  rw [hclosing] at hend
  refine ⟨key, equals, value, closing, rest, rfl, hname, hsign, hliteral, hend, ?_, hrest⟩
  rcases hvalue with hvalue | hvalue <;> simp [hkey, hequals, hvalue, hclosing]

/-- After a type or a predicate there come predicates, and then the end or a
    comma. The induction is on the symbols, five at a time. -/
theorem predicates_of_runs (hruns : Runs .afterItem (tokens.map Token.symbol)) :
    ∃ group rest, tokens = group ++ rest ∧
      WritesPredicates WritesLiteral (group.map (·.text.toList)) (predicatesOf group) ∧
      (∀ token ∈ group, token.terminal ≠ .comma) ∧
      (rest = [] ∨ ∃ comma more, rest = comma :: more ∧ comma.terminal = .comma ∧
        comma.text.toList = [','] ∧ Runs .item (more.map Token.symbol)) := by
  induction hlength : tokens.length using Nat.strongRecOn generalizing tokens with
  | ind length ih =>
    cases tokens with
    | nil => exact ⟨[], [], rfl, .nil, by simp, Or.inl rfl⟩
    | cons first rest =>
      cases hruns with
      | cons hexpected hlexeme hrest =>
        obtain ⟨terminal, text, start⟩ := first
        simp only [State.expected, List.mem_cons, List.not_mem_nil, or_false] at hexpected
        rcases hexpected with rfl | rfl | rfl
        · cases hlexeme
        · exact ⟨[], _, rfl, .nil, by simp, Or.inr ⟨_, rest, rfl, rfl, hlexeme, hrest⟩⟩
        · obtain ⟨key, equals, value, closing, rest, rfl, hkey, hequals, hvalue, hclosing, hplain,
            hrest⟩ := Runs.bracket hrest
          have hless : rest.length < length := by
            simp only [List.length_cons] at hlength
            omega
          obtain ⟨group, after, rfl, hwrites, hgroup, hafter⟩ := ih _ hless hrest rfl
          refine ⟨⟨.opening, text, start⟩ :: key :: equals :: value :: closing :: group, after, rfl,
            ?_, ?_, hafter⟩
          · have hmore := WritesPredicates.cons hkey hvalue hwrites
            rw [String.ofList_toList] at hmore
            simp only [List.map_cons, hequals, hclosing, predicatesOf]
            rw [show text.toList = ['['] from hlexeme]
            exact hmore
          · simp only [List.forall_mem_cons] at hplain ⊢
            exact ⟨by simp, hplain.1, hplain.2.1, hplain.2.2.1, hplain.2.2.2.1, hgroup⟩

/-- An alternative and those after its comma are read one after the other. -/
theorem writesClauses_group {group rest : List Token}
    (hclause : WritesClause WritesLiteral (group.map (·.text.toList)) (Clause.ofTokens group))
    (hgroup : ∀ token ∈ group, token.terminal ≠ .comma)
    (hrest : rest = [] ∨ ∃ comma more, rest = comma :: more ∧ comma.terminal = .comma ∧
      comma.text.toList = [','] ∧
      WritesClauses WritesLiteral (more.map (·.text.toList))
        ((splitCommas more).map Clause.ofTokens)) :
    WritesClauses WritesLiteral ((group ++ rest).map (·.text.toList))
      ((splitCommas (group ++ rest)).map Clause.ofTokens) := by
  rcases hrest with rfl | ⟨comma, more, rfl, hcomma, hsign, hmore⟩
  · rw [List.append_nil, splitCommas_group hgroup]
    exact .last hclause
  · rw [splitCommas_comma hgroup hcomma, List.map_append, List.map_cons, hsign]
    exact .cons hclause hmore

/-- From the start of an alternative on, the symbols write what is read from
    them. -/
theorem clauses_of_runs (hruns : Runs .item (tokens.map Token.symbol)) :
    WritesClauses WritesLiteral (tokens.map (·.text.toList))
      ((splitCommas tokens).map Clause.ofTokens) := by
  induction hlength : tokens.length using Nat.strongRecOn generalizing tokens with
  | ind length ih =>
    obtain ⟨⟨terminal, text, start⟩, rest, rfl, hexpected, hlexeme, hrest⟩ :=
      hruns.uncons (by decide)
    -- Whatever starts the alternative, its comma is followed by fewer symbols.
    have hlater : ∀ group after : List Token, group ++ after = ⟨terminal, text, start⟩ :: rest →
        (after = [] ∨ ∃ comma more, after = comma :: more ∧ comma.terminal = .comma ∧
          comma.text.toList = [','] ∧ Runs .item (more.map Token.symbol)) →
        (after = [] ∨ ∃ comma more, after = comma :: more ∧ comma.terminal = .comma ∧
          comma.text.toList = [','] ∧ WritesClauses WritesLiteral (more.map (·.text.toList))
            ((splitCommas more).map Clause.ofTokens)) := by
      rintro group after hsplit (rfl | ⟨comma, more, rfl, hcomma, hsign, hmore⟩)
      · exact Or.inl rfl
      · have hless : more.length < length := by
          have hcount := congrArg List.length hsplit
          simp only [List.length_append, List.length_cons] at hcount hlength
          omega
        exact Or.inr ⟨comma, more, rfl, hcomma, hsign, ih _ hless hmore rfl⟩
    simp only [State.expected, List.mem_cons, List.not_mem_nil, or_false] at hexpected
    rcases hexpected with rfl | rfl | rfl
    · -- A predicate comes first, so it is as if a type were left out.
      have hpredicates : Runs .afterItem ((⟨.opening, text, start⟩ :: rest).map Token.symbol) :=
        .cons (by simp [State.expected]) hlexeme hrest
      obtain ⟨group, after, hsplit, hwrites, hgroup, hafter⟩ := predicates_of_runs hpredicates
      cases group with
      | nil =>
        rw [List.nil_append] at hsplit
        rcases hafter with hnone | ⟨comma, more, hcomma, hterminal, _⟩
        · rw [hnone] at hsplit
          cases hsplit
        · rw [hcomma] at hsplit
          rw [← (List.cons.inj hsplit).1] at hterminal
          cases hterminal
      | cons first group =>
        obtain rfl := (List.cons.inj hsplit).1
        have hsome : predicatesOf (⟨.opening, text, start⟩ :: group) ≠ [] := by
          intro hnone
          rw [hnone] at hwrites
          simpa using hwrites.eq_nil
        rw [hsplit]
        exact writesClauses_group (.untyped hwrites hsome) hgroup
          (hlater _ _ hsplit.symm hafter)
    · obtain ⟨group, after, rfl, hwrites, hgroup, hafter⟩ := predicates_of_runs hrest
      have hclause := WritesClause.named hlexeme hwrites
      rw [String.ofList_toList] at hclause
      exact @writesClauses_group (⟨.name, text, start⟩ :: group) after hclause
        (by simpa using hgroup) (hlater (_ :: group) _ rfl hafter)
    · obtain ⟨group, after, rfl, hwrites, hgroup, hafter⟩ := predicates_of_runs hrest
      have hclause := WritesClause.anyType hwrites
      rw [← show text.toList = ['*'] from hlexeme] at hclause
      exact @writesClauses_group (⟨.star, text, start⟩ :: group) after hclause
        (by simpa using hgroup) (hlater (_ :: group) _ rfl hafter)

end Sound

section Complete

variable {lexemes : List (List Char)}

theorem text_of_symbol {token : Token} {terminal : Terminal} {lexeme : List Char}
    (hsymbol : token.symbol = (terminal, lexeme)) :
    token.terminal = terminal ∧ token.text = String.ofList lexeme := by
  obtain ⟨hterminal, htext⟩ := Prod.mk.inj hsymbol
  exact ⟨hterminal, by rw [← htext, String.ofList_toList]⟩

/-- A literal that is written is read from a value of its kind. -/
theorem terminal_of_literal {value : List Char} {literal : Literal}
    (hwrites : WritesLiteral value literal) :
    ∃ terminal ∈ State.value.expected, terminal.Lexeme value ∧
      ∀ token : Token, token.symbol = (terminal, value) → token.literal = literal := by
  cases hwrites with
  | bare hbare =>
    refine ⟨.bareword, by decide, hbare, fun token hsymbol => ?_⟩
    obtain ⟨hterminal, htext⟩ := text_of_symbol hsymbol
    simp [Token.literal, hterminal, htext]
  | quoted hquoted =>
    refine ⟨.string, by decide, ⟨_, rfl, hquoted⟩, fun token hsymbol => ?_⟩
    obtain ⟨hterminal, htext⟩ := text_of_symbol hsymbol
    simp [Token.literal, hterminal, htext]

/-- Predicates that are written are found again among the symbols. -/
theorem runs_of_predicates {predicates : List (String × Literal)}
    (hwrites : WritesPredicates WritesLiteral lexemes predicates) :
    ∃ symbols : List Symbol, symbols.map Prod.snd = lexemes ∧
      (∀ more, Runs .afterItem more → Runs .afterItem (symbols ++ more)) ∧
      ∀ tokens : List Token, tokens.map Token.symbol = symbols →
        predicatesOf tokens = predicates ∧ ∀ token ∈ tokens, token.terminal ≠ .comma := by
  induction hwrites with
  | nil =>
    refine ⟨[], rfl, fun more hmore => hmore, ?_⟩
    intro tokens htokens
    obtain rfl := List.map_eq_nil_iff.mp htokens
    exact ⟨rfl, by simp⟩
  | @cons key value a lexemes predicates hkey hvalue hrest ih =>
    obtain ⟨symbols, hlexemes, hruns, hread⟩ := ih
    obtain ⟨terminal, hexpected, hlexeme, hliteral⟩ := terminal_of_literal hvalue
    refine ⟨(.opening, ['[']) :: (.name, key) :: (.equals, ['=']) :: (terminal, value) ::
      (.closing, [']']) :: symbols, by simp [hlexemes], ?_, ?_⟩
    · intro more hmore
      refine .cons (by decide) rfl (.cons (by decide) hkey (.cons (by decide) rfl ?_))
      exact .cons hexpected hlexeme (.cons (List.mem_singleton_self _) rfl (hruns more hmore))
    · intro tokens htokens
      obtain ⟨opening, rest, rfl, hopening, htokens⟩ := List.map_eq_cons_iff.mp htokens
      obtain ⟨name, rest, rfl, hname, htokens⟩ := List.map_eq_cons_iff.mp htokens
      obtain ⟨equals, rest, rfl, hequals, htokens⟩ := List.map_eq_cons_iff.mp htokens
      obtain ⟨written, rest, rfl, hwritten, htokens⟩ := List.map_eq_cons_iff.mp htokens
      obtain ⟨closing, rest, rfl, hclosing, htokens⟩ := List.map_eq_cons_iff.mp htokens
      obtain ⟨rfl, hplain⟩ := hread rest htokens
      refine ⟨?_, ?_⟩
      · rw [predicatesOf, hliteral written hwritten, (text_of_symbol hname).2]
      · have hvalue : written.terminal ≠ .comma := by
          rw [(text_of_symbol hwritten).1]
          rintro rfl
          revert hexpected
          decide
        simp only [List.forall_mem_cons, (text_of_symbol hopening).1, (text_of_symbol hname).1,
          (text_of_symbol hequals).1, (text_of_symbol hclosing).1]
        exact ⟨by simp, by simp, by simp, hvalue, by simp, hplain⟩

theorem runs_of_clause {clause : Clause Literal}
    (hwrites : WritesClause WritesLiteral lexemes clause) :
    ∃ symbols : List Symbol, symbols.map Prod.snd = lexemes ∧
      (∀ more, Runs .afterItem more → Runs .item (symbols ++ more)) ∧
      ∀ tokens : List Token, tokens.map Token.symbol = symbols →
        Clause.ofTokens tokens = clause ∧ ∀ token ∈ tokens, token.terminal ≠ .comma := by
  cases hwrites with
  | @named name lexemes predicates hname hpredicates =>
    obtain ⟨symbols, hlexemes, hruns, hread⟩ := runs_of_predicates hpredicates
    refine ⟨(.name, name) :: symbols, by simp [hlexemes], fun more hmore =>
      .cons (by decide) hname (hruns more hmore), ?_⟩
    intro tokens htokens
    obtain ⟨first, rest, rfl, hfirst, htokens⟩ := List.map_eq_cons_iff.mp htokens
    obtain ⟨rfl, hplain⟩ := hread rest htokens
    obtain ⟨hterminal, htext⟩ := text_of_symbol hfirst
    simp only [Clause.ofTokens, Alternative.ofTokens, hterminal, htext, List.forall_mem_cons]
    exact ⟨trivial, by simp, hplain⟩
  | anyType hpredicates =>
    obtain ⟨symbols, hlexemes, hruns, hread⟩ := runs_of_predicates hpredicates
    refine ⟨(.star, ['*']) :: symbols, by simp [hlexemes], fun more hmore =>
      .cons (by decide) rfl (hruns more hmore), ?_⟩
    intro tokens htokens
    obtain ⟨first, rest, rfl, hfirst, htokens⟩ := List.map_eq_cons_iff.mp htokens
    obtain ⟨rfl, hplain⟩ := hread rest htokens
    obtain ⟨hterminal, htext⟩ := text_of_symbol hfirst
    simp only [Clause.ofTokens, Alternative.ofTokens, hterminal, List.forall_mem_cons]
    exact ⟨trivial, by simp, hplain⟩
  | untyped hpredicates hsome =>
    obtain ⟨symbols, hlexemes, hruns, hread⟩ := runs_of_predicates hpredicates
    -- The first symbol opens a predicate, which may also start an alternative.
    obtain ⟨others, rfl⟩ : ∃ others, symbols = (.opening, ['[']) :: others := by
      cases hpredicates with
      | nil => exact (hsome rfl).elim
      | cons =>
        obtain ⟨⟨terminal, lexeme⟩, others, rfl, rfl, _⟩ := List.map_eq_cons_iff.mp hlexemes
        cases hruns [] (.nil (by decide)) with
        | cons hexpected hlexeme =>
          refine ⟨others, ?_⟩
          simp only [State.expected, List.mem_cons, List.not_mem_nil, or_false] at hexpected
          rcases hexpected with rfl | rfl | rfl
          · cases hlexeme
          · cases hlexeme
          · rfl
    refine ⟨_, hlexemes, fun more hmore => ?_, ?_⟩
    · cases hruns more hmore with
      | cons _ hlexeme hrest => exact .cons (by decide) hlexeme hrest
    · intro tokens htokens
      obtain ⟨hsame, hplain⟩ := hread tokens htokens
      obtain ⟨first, rest, rfl, hfirst, _⟩ := List.map_eq_cons_iff.mp htokens
      refine ⟨?_, hplain⟩
      simp only [Clause.ofTokens, Alternative.ofTokens, (text_of_symbol hfirst).1, hsame]

/-- Alternatives that are written are read again. -/
theorem runs_of_clauses {clauses : List (Clause Literal)}
    (hwrites : WritesClauses WritesLiteral lexemes clauses) :
    ∃ symbols : List Symbol, symbols.map Prod.snd = lexemes ∧ Runs .item symbols ∧
      ∀ tokens : List Token, tokens.map Token.symbol = symbols →
        (splitCommas tokens).map Clause.ofTokens = clauses := by
  induction hwrites with
  | last hclause =>
    obtain ⟨symbols, hlexemes, hruns, hread⟩ := runs_of_clause hclause
    refine ⟨symbols, hlexemes, by simpa using hruns [] (.nil (by decide)), ?_⟩
    intro tokens htokens
    obtain ⟨rfl, hplain⟩ := hread tokens htokens
    rw [splitCommas_group hplain]
    rfl
  | cons hclause _ ih =>
    obtain ⟨symbols, hlexemes, hruns, hread⟩ := runs_of_clause hclause
    obtain ⟨others, hmore, hafter, hlater⟩ := ih
    refine ⟨symbols ++ (.comma, [',']) :: others, by simp [hlexemes, hmore],
      hruns _ (.cons (by decide) rfl hafter), ?_⟩
    intro tokens htokens
    obtain ⟨group, rest, rfl, hgroup, hrest⟩ := List.map_eq_append_iff.mp htokens
    obtain ⟨comma, more, rfl, hcomma, hothers⟩ := List.map_eq_cons_iff.mp hrest
    obtain ⟨rfl, hplain⟩ := hread group hgroup
    rw [splitCommas_comma hplain (Prod.mk.inj hcomma).1, List.map_cons, hlater more hothers]

end Complete

section Values

variable {cs text chars : List Char}

theorem quotedTail_plain {plain : List Char}
    (hplain : ∀ c ∈ plain, c ≠ '\n' ∧ c ≠ '"' ∧ c ≠ '\\') :
    quotedTail false (plain ++ cs) =
      (quotedTail false cs).map fun (tail, after) => (plain ++ tail, after) := by
  induction plain with
  | nil => simp
  | cons c rest ih =>
    obtain ⟨⟨hline, hquote, hescape⟩, hrest⟩ := List.forall_mem_cons.mp hplain
    have hodd : (c == '\\') = false := beq_eq_false_iff_ne.mpr hescape
    simp [quotedTail, hline, hquote, hodd, ih hrest, Function.comp_def]

/-- After a backslash any other character than a line break is passed over. -/
theorem quotedTail_escape {e : Char} (hline : e ≠ '\n') :
    quotedTail false ('\\' :: e :: cs) =
      (quotedTail false cs).map fun (tail, after) => ('\\' :: e :: tail, after) := by
  simp [quotedTail, hline, Function.comp_def]

theorem plain_of_hex4 {digits : List Char} {n : Nat} (hdigits : Json.hex4 digits = some (n, [])) :
    ∀ c ∈ digits, c ≠ '\n' ∧ c ≠ '"' ∧ c ≠ '\\' := by
  have hplain : ∀ {c : Char} {v : Nat}, Text.hexValue? c = some v →
      c ≠ '\n' ∧ c ≠ '"' ∧ c ≠ '\\' := by
    intro c v hvalue
    refine ⟨?_, ?_, ?_⟩ <;> rintro rfl <;> revert hvalue <;> simp [Text.hexValue?]
  match digits, hdigits with
  | a :: b :: c :: d :: rest, hdigits =>
    simp only [Json.hex4, Option.bind_eq_bind, Option.bind_eq_some_iff, Option.some.injEq,
      Prod.mk.injEq] at hdigits
    obtain ⟨_, ha, _, hb, _, hc, _, hd, _, rfl⟩ := hdigits
    simp only [List.forall_mem_cons]
    exact ⟨hplain ha, hplain hb, hplain hc, hplain hd, by simp⟩

/-- A string of a document ends where a quoted value does. -/
theorem quotedTail_of_between (hbetween : Json.Between text chars) (rest : List Char) :
    quotedTail false (text ++ '"' :: rest) = some (text ++ ['"'], rest) := by
  induction hbetween with
  | nil => rfl
  | @plain c text chars hquote hescape hcontrol hrest ih =>
    have hplain : ∀ d ∈ [c], d ≠ '\n' ∧ d ≠ '"' ∧ d ≠ '\\' := by
      rw [List.forall_mem_singleton]
      refine ⟨?_, hquote, hescape⟩
      rintro rfl
      revert hcontrol
      decide
    have htail := @quotedTail_plain (text ++ '"' :: rest) [c] hplain
    rw [ih] at htail
    exact htail
  | @short e c text chars hshort hrest ih =>
    have hline : e ≠ '\n' := by
      rintro rfl
      cases hshort
    have htail := @quotedTail_escape (text ++ '"' :: rest) e hline
    rw [ih] at htail
    exact htail
  | @unicode digits text chars n hdigits hlone hrest ih =>
    have hdigit := @quotedTail_plain (text ++ '"' :: rest) digits (plain_of_hex4 hdigits)
    have htail := @quotedTail_escape (digits ++ (text ++ '"' :: rest)) 'u' (by decide)
    rw [hdigit, ih] at htail
    simpa using htail
  | @pair first second text chars high low hfirst hhigh hsecond hlow hrest ih =>
    have hlast := @quotedTail_plain (text ++ '"' :: rest) second (plain_of_hex4 hsecond)
    have hnext := @quotedTail_escape (second ++ (text ++ '"' :: rest)) 'u' (by decide)
    have hdigit := @quotedTail_plain ('\\' :: 'u' :: (second ++ (text ++ '"' :: rest))) first
      (plain_of_hex4 hfirst)
    have htail := @quotedTail_escape
      (first ++ '\\' :: 'u' :: (second ++ (text ++ '"' :: rest))) 'u' (by decide)
    rw [hdigit, hnext, hlast, ih] at htail
    simpa using htail

/-- A value that is written is that of a literal. -/
theorem literal_of_value {scalar : Scalar} (hwrites : WritesValue cs scalar) :
    ∃ literal, WritesLiteral cs literal ∧ literal.value = .ok (.scalar scalar) := by
  cases hwrites with
  | bare hbare => exact ⟨_, .bare hbare, rfl⟩
  | @quoted text chars hbetween =>
    refine ⟨_, .quoted (by simpa using quotedTail_of_between hbetween []), ?_⟩
    simp only [Literal.value, Json.parse_quote_of_between hbetween]
    rfl

theorem value_of_literal {literal : Literal} {datum : Datum} (hwrites : WritesLiteral cs literal)
    (hvalue : literal.value = .ok datum) :
    ∃ scalar, datum = .scalar scalar ∧ WritesValue cs scalar := by
  cases hwrites with
  | bare hbare =>
    cases hvalue
    exact ⟨_, rfl, .bare hbare⟩
  | @quoted tail hquoted =>
    rw [Literal.value] at hvalue
    split at hvalue
    · next found hparse =>
      cases hvalue
      obtain ⟨text, chars, rest, rfl, hbetween, rfl⟩ := Json.between_of_parse_quote hparse
      -- Blanks after the string would be a part of the lexeme.
      rw [quotedTail_of_between hbetween] at hquoted
      obtain rfl : rest = [] := (Prod.mk.inj (Option.some.inj hquoted)).2
      exact ⟨_, rfl, .quoted hbetween⟩
    · cases hvalue

end Values

section Tests

variable {lexemes : List (List Char)}

/-- A predicate with the value of its literal. -/
def readPredicate (predicate : String × Literal) : Except Error (String × Datum) := do
  let value ← predicate.2.value
  pure (predicate.1, value)

/-- Predicates with their values, as data. -/
def asData (predicates : List (String × Scalar)) : List (String × Datum) :=
  predicates.map fun predicate => (predicate.1, .scalar predicate.2)

theorem mapM_readPredicate {predicates : List (String × Scalar)}
    (hwrites : WritesPredicates WritesValue lexemes predicates) :
    ∃ literals, WritesPredicates WritesLiteral lexemes literals ∧
      literals.mapM readPredicate = .ok (asData predicates) := by
  induction hwrites with
  | nil => exact ⟨[], .nil, rfl⟩
  | @cons key value scalar lexemes predicates hkey hvalue hrest ih =>
    obtain ⟨literals, hliterals, hread⟩ := ih
    obtain ⟨literal, hliteral, hscalar⟩ := literal_of_value hvalue
    refine ⟨(String.ofList key, literal) :: literals, .cons hkey hliteral hliterals, ?_⟩
    rw [List.mapM_cons, readPredicate, hscalar, hread]
    rfl

theorem writesValues_of_mapM {literals : List (String × Literal)} {fields : List (String × Datum)}
    (hwrites : WritesPredicates WritesLiteral lexemes literals)
    (hread : literals.mapM readPredicate = .ok fields) :
    ∃ predicates, WritesPredicates WritesValue lexemes predicates ∧ fields = asData predicates := by
  induction hwrites generalizing fields with
  | nil =>
    cases hread
    exact ⟨[], .nil, rfl⟩
  | @cons key value literal lexemes predicates hkey hvalue hrest ih =>
    rw [List.mapM_cons] at hread
    obtain ⟨field, hfield, hread⟩ := bind_eq_ok_iff.mp hread
    obtain ⟨others, hothers, hread⟩ := bind_eq_ok_iff.mp hread
    obtain ⟨datum, hdatum, hfield⟩ := bind_eq_ok_iff.mp hfield
    cases hread
    cases hfield
    obtain ⟨scalar, rfl, hscalar⟩ := value_of_literal hvalue hdatum
    obtain ⟨predicates, hpredicates, rfl⟩ := ih hothers
    exact ⟨(String.ofList key, scalar) :: predicates, .cons hkey hscalar hpredicates, rfl⟩

/-- Predicates are read from left to right and set one after the other. -/
theorem addPredicates_eq (predicates : List (String × Literal)) (fields : List (String × Datum)) :
    addPredicates predicates fields =
      (do let later ← predicates.mapM readPredicate
          pure (setFields later fields)) := by
  induction predicates generalizing fields with
  | nil => rfl
  | cons predicate rest ih =>
    obtain ⟨key, literal⟩ := predicate
    rw [addPredicates, List.mapM_cons, readPredicate]
    cases literal.value with
    | error error => rfl
    | ok value =>
      show addPredicates rest (setField key value fields) = _
      rw [ih]
      cases rest.mapM readPredicate <;> rfl

/-- Values are set one after the other whatever they are values of. -/
theorem setFields_asData (predicates : List (String × Scalar)) :
    setFields (asData predicates) [] = asData (lastWritten predicates) := by
  rw [← setFields_nil]
  exact setFields_map Datum.scalar predicates []

theorem test_of_some {type : Option String} {literals : List (String × Literal)}
    {fields : List (String × Datum)} (hadd : addPredicates literals [] = .ok fields)
    (hsome : fields ≠ []) :
    Alternative.test ⟨type, literals⟩ =
      .ok (.mapping (type.elim fields fun name => setFields fields [("type", .text name)])) := by
  obtain ⟨field, others, rfl⟩ := List.exists_cons_of_ne_nil hsome
  rw [Alternative.test, hadd]
  cases type <;> rfl

/-- The test of an alternative is settled by the values of its predicates. -/
theorem test_of_read {type : Option String} {literals : List (String × Literal)}
    {predicates : List (String × Scalar)}
    (hread : literals.mapM readPredicate = .ok (asData predicates)) :
    Alternative.test ⟨type, literals⟩ = .ok (Clause.test ⟨type, predicates⟩) := by
  have hadd : addPredicates literals [] = .ok (setFields (asData predicates) []) := by
    rw [addPredicates_eq, hread]
    rfl
  cases predicates with
  | nil =>
    rw [Alternative.test, hadd]
    cases type <;> rfl
  | cons first rest =>
    have hsome : setFields (asData (first :: rest)) [] ≠ [] :=
      @setFields_ne_nil Datum [(first.1, .scalar first.2)] (asData rest) (List.cons_ne_nil _ _)
    rw [test_of_some hadd hsome]
    cases type with
    | none => rw [Option.elim_none, setFields_asData]; rfl
    | some name =>
      -- The fields are set on top of the type, so it is as if it were written first.
      have htype : setFields (setFields (asData (first :: rest)) []) [("type", .text name)] =
          setFields (asData (("type", .text name) :: first :: rest)) [] :=
        setFields_setFields List.nodup_nil
      rw [Option.elim_some, htype, setFields_asData]
      rfl

/-- An alternative that is written is read as its test. -/
theorem literals_of_clause {clause : Clause Scalar}
    (hwrites : WritesClause WritesValue lexemes clause) :
    ∃ literals : Clause Literal, WritesClause WritesLiteral lexemes literals ∧
      Alternative.test ⟨literals.type, literals.predicates⟩ = .ok clause.test := by
  cases hwrites with
  | named hname hpredicates =>
    obtain ⟨literals, hliterals, hread⟩ := mapM_readPredicate hpredicates
    exact ⟨_, .named hname hliterals, test_of_read hread⟩
  | anyType hpredicates =>
    obtain ⟨literals, hliterals, hread⟩ := mapM_readPredicate hpredicates
    exact ⟨_, .anyType hliterals, test_of_read hread⟩
  | untyped hpredicates hsome =>
    obtain ⟨literals, hliterals, hread⟩ := mapM_readPredicate hpredicates
    refine ⟨_, .untyped hliterals ?_, test_of_read hread⟩
    rintro rfl
    exact hsome (List.map_eq_nil_iff.mp (Except.ok.inj hread).symm)

theorem clause_of_literals {literals : Clause Literal} {test : Datum}
    (hwrites : WritesClause WritesLiteral lexemes literals)
    (htest : Alternative.test ⟨literals.type, literals.predicates⟩ = .ok test) :
    ∃ clause : Clause Scalar, WritesClause WritesValue lexemes clause ∧ test = clause.test := by
  have hmapM : ∃ fields, literals.predicates.mapM readPredicate = .ok fields := by
    rw [Alternative.test, addPredicates_eq] at htest
    obtain ⟨_, hadd, _⟩ := bind_eq_ok_iff.mp htest
    obtain ⟨fields, hfields, _⟩ := bind_eq_ok_iff.mp hadd
    exact ⟨fields, hfields⟩
  obtain ⟨fields, hread⟩ := hmapM
  cases hwrites with
  | named hname hliterals =>
    obtain ⟨predicates, hpredicates, rfl⟩ := writesValues_of_mapM hliterals hread
    rw [test_of_read hread] at htest
    exact ⟨_, .named hname hpredicates, (Except.ok.inj htest).symm⟩
  | anyType hliterals =>
    obtain ⟨predicates, hpredicates, rfl⟩ := writesValues_of_mapM hliterals hread
    rw [test_of_read hread] at htest
    exact ⟨_, .anyType hpredicates, (Except.ok.inj htest).symm⟩
  | @untyped lexemes literals hliterals hsome =>
    obtain ⟨predicates, hpredicates, rfl⟩ := writesValues_of_mapM hliterals hread
    rw [test_of_read hread] at htest
    refine ⟨_, .untyped hpredicates ?_, (Except.ok.inj htest).symm⟩
    rintro rfl
    cases hpredicates
    exact hsome (WritesPredicates.nil_of_nil hliterals)

theorem literals_of_clauses {clauses : List (Clause Scalar)}
    (hwrites : WritesClauses WritesValue lexemes clauses) :
    ∃ literals : List (Clause Literal), WritesClauses WritesLiteral lexemes literals ∧
      (literals.mapM fun clause => Alternative.test ⟨clause.type, clause.predicates⟩) =
        .ok (clauses.map Clause.test) := by
  induction hwrites with
  | last hclause =>
    obtain ⟨literals, hliterals, htest⟩ := literals_of_clause hclause
    refine ⟨[literals], .last hliterals, ?_⟩
    rw [List.mapM_cons, htest]
    rfl
  | cons hclause _ ih =>
    obtain ⟨first, hfirst, htest⟩ := literals_of_clause hclause
    obtain ⟨literals, hliterals, hrest⟩ := ih
    refine ⟨first :: literals, .cons hfirst hliterals, ?_⟩
    rw [List.mapM_cons, htest, hrest]
    rfl

theorem clauses_of_literals {literals : List (Clause Literal)} {tests : List Datum}
    (hwrites : WritesClauses WritesLiteral lexemes literals)
    (htests : (literals.mapM fun clause => Alternative.test ⟨clause.type, clause.predicates⟩) =
      .ok tests) :
    ∃ clauses : List (Clause Scalar), WritesClauses WritesValue lexemes clauses ∧
      tests = clauses.map Clause.test := by
  induction hwrites generalizing tests with
  | last hliterals =>
    rw [List.mapM_cons] at htests
    obtain ⟨test, htest, hnone⟩ := bind_eq_ok_iff.mp htests
    obtain ⟨clause, hclause, rfl⟩ := clause_of_literals hliterals htest
    cases hnone
    exact ⟨[clause], .last hclause, rfl⟩
  | cons hliterals _ ih =>
    rw [List.mapM_cons] at htests
    obtain ⟨test, htest, hmore⟩ := bind_eq_ok_iff.mp htests
    obtain ⟨others, hothers, hall⟩ := bind_eq_ok_iff.mp hmore
    obtain ⟨clause, hclause, rfl⟩ := clause_of_literals hliterals htest
    obtain ⟨clauses, hclauses, rfl⟩ := ih hothers
    cases hall
    exact ⟨clause :: clauses, .cons hclause hclauses, rfl⟩

end Tests

section Parse

variable {selector : String}

/-- A single alternative stands for itself. -/
theorem testOf_eq_ok {alternatives : List Alternative} {clauses : List (Clause Scalar)}
    (htests : alternatives.mapM Alternative.test = .ok (clauses.map Clause.test)) :
    testOf alternatives = .ok (testOfClauses clauses) := by
  rw [testOf, htests]
  match clauses with
  | [] => rfl
  | [clause] => rfl
  | first :: second :: rest => rfl

theorem mapM_ofTokens (groups : List (List Token)) :
    (groups.map Alternative.ofTokens).mapM Alternative.test =
      (groups.map Clause.ofTokens).mapM fun clause =>
        Alternative.test ⟨clause.type, clause.predicates⟩ := by
  rw [List.mapM_map, List.mapM_map]
  rfl

theorem parse_of_writes {clauses : List (Clause Scalar)} (hwrites : Writes selector clauses) :
    parse selector = .ok (testOfClauses clauses) := by
  obtain ⟨lexemes, hlaid, hclauses⟩ := hwrites
  obtain ⟨literals, hliterals, htests⟩ := literals_of_clauses hclauses
  obtain ⟨symbols, rfl, hruns, hread⟩ := runs_of_clauses hliterals
  obtain ⟨tokens, hscan, hsymbols⟩ :=
    @scanFrom_complete _ _ _ hruns (selector.toList.length + 1) 0 none hlaid (by omega)
  have halternatives :
      alternatives selector = .ok ((splitCommas tokens).map Alternative.ofTokens) := by
    rw [alternatives, scan, hscan]
    rfl
  rw [← hread tokens hsymbols, ← mapM_ofTokens] at htests
  rw [parse, halternatives]
  exact testOf_eq_ok htests

theorem writes_of_parse {test : Datum} (hparse : parse selector = .ok test) :
    ∃ clauses, Writes selector clauses ∧ test = testOfClauses clauses := by
  rw [parse] at hparse
  split at hparse
  · next found halternatives =>
    obtain ⟨tokens, hscan, hfound⟩ := bind_eq_ok_iff.mp halternatives
    cases hfound
    obtain ⟨hruns, hlaid⟩ := scanFrom_sound hscan
    obtain ⟨tests, htests, _⟩ := bind_eq_ok_iff.mp hparse
    have hliterals := htests
    rw [mapM_ofTokens] at hliterals
    obtain ⟨clauses, hclauses, rfl⟩ := clauses_of_literals (clauses_of_runs hruns) hliterals
    rw [testOf_eq_ok htests] at hparse
    exact ⟨clauses, ⟨_, hlaid, hclauses⟩, (Except.ok.inj hparse).symm⟩
  · cases hparse

/-- Exactly the texts of the grammar are read, each as the test that its
    alternatives stand for; any other text is refused with a complaint about
    selectors that names it. -/
theorem parse_accepts_grammar (selector : String) :
    (∀ test, parse selector = .ok test ↔
      ∃ clauses, Writes selector clauses ∧ test = testOfClauses clauses) ∧
    ((¬∃ clauses, Writes selector clauses) ↔
      ∃ error complaint, parse selector = .error error ∧
        error.fault selector = .of (.complaint complaint) ∧ complaint.topic = .selector ∧
        complaint.code = some "SELECTOR_PARSE_ERROR" ∧ complaint.subject = some selector) := by
  refine ⟨fun test => ⟨writes_of_parse, ?_⟩, ?_, ?_⟩
  · rintro ⟨clauses, hwrites, rfl⟩
    exact parse_of_writes hwrites
  · intro hnone
    cases hparse : parse selector with
    | ok test =>
      obtain ⟨clauses, hwrites, _⟩ := writes_of_parse hparse
      exact (hnone ⟨clauses, hwrites⟩).elim
    | error error => exact ⟨error, _, rfl, rfl, rfl, rfl, rfl⟩
  · rintro ⟨error, _, hparse, _⟩ ⟨clauses, hwrites⟩
    rw [parse_of_writes hwrites] at hparse
    cases hparse

end Parse

end Lineage.Selector
