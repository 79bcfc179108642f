import Lineage.Proofs.Selector.Matching

namespace Lineage.Selector

/-- The alternatives of a test that a selector is read as: the members of a
    list, or else the test alone. -/
def choices : Datum → List Datum
  | .list tests => tests
  | test => [test]

section Clauses

variable {α : Type} {reads : List Char → α → Prop} {lexemes more : List (List Char)}

theorem WritesClauses.ne_nil {clauses : List (Clause α)}
    (hwrites : WritesClauses reads lexemes clauses) : clauses ≠ [] := by
  cases hwrites <;> exact List.cons_ne_nil _ _

/-- Alternatives, a comma and more alternatives. -/
theorem WritesClauses.append {clauses others : List (Clause α)}
    (hwrites : WritesClauses reads lexemes clauses) (hmore : WritesClauses reads more others) :
    WritesClauses reads (lexemes ++ [','] :: more) (clauses ++ others) := by
  induction hwrites with
  | last hclause => exact .cons hclause hmore
  | @cons first rest clause clauses hclause _ ih =>
    rw [List.append_assoc]
    exact .cons hclause ih

end Clauses

section Joined

variable {first second : String} {clauses others : List (Clause Scalar)}

/-- A comma is a lexeme of its own, whatever stands before and after it. -/
theorem writes_join (hfirst : Writes first clauses) (hsecond : Writes second others) :
    Writes (first ++ "," ++ second) (clauses ++ others) := by
  obtain ⟨lexemes, hlaid, hclauses⟩ := hfirst
  obtain ⟨more, hmore, hothers⟩ := hsecond
  refine ⟨lexemes ++ [','] :: more, ?_, hclauses.append hothers⟩
  have hcomma : Laid ([','] :: more) (',' :: second.toList) :=
    @Laid.cons [] [','] _ more (by simp) hmore
  simpa using laid_append hlaid hcomma

theorem Writes.ne_nil (hwrites : Writes first clauses) : clauses ≠ [] := by
  obtain ⟨_, _, hclauses⟩ := hwrites
  exact hclauses.ne_nil

/-- The test of an alternative is not a list. -/
theorem choices_test (clause : Clause Scalar) : choices clause.test = [clause.test] := by
  match clause with
  | ⟨none, []⟩ => rfl
  | ⟨some _, []⟩ => rfl
  | ⟨none, _ :: _⟩ => rfl
  | ⟨some _, _ :: _⟩ => rfl

/-- What stands for a selector has the tests of its alternatives, whether they
    are several or one that stands for itself. -/
theorem choices_testOfClauses (hsome : clauses ≠ []) :
    choices (testOfClauses clauses) = clauses.map Clause.test := by
  match clauses with
  | [] => exact (hsome rfl).elim
  | [clause] => exact choices_test clause
  | _ :: _ :: _ => rfl

theorem testOfClauses_append (hclauses : clauses ≠ []) (hothers : others ≠ []) :
    testOfClauses (clauses ++ others) =
      .list (choices (testOfClauses clauses) ++ choices (testOfClauses others)) := by
  rw [choices_testOfClauses hclauses, choices_testOfClauses hothers, ← List.map_append]
  match clauses, others with
  | [], _ => exact (hclauses rfl).elim
  | _, [] => exact (hothers rfl).elim
  | [_], _ :: _ => rfl
  | _ :: _ :: _, _ :: _ => rfl

end Joined

/-- Two selectors that are read are read with a comma between them too. -/
theorem parse_join {first second : String} {test other : Datum}
    (hfirst : parse first = .ok test) (hsecond : parse second = .ok other) :
    ∃ clauses others, test = testOfClauses clauses ∧ other = testOfClauses others ∧
      testOfClauses (clauses ++ others) = .list (choices test ++ choices other) ∧
      parse (first ++ "," ++ second) = .ok (.list (choices test ++ choices other)) := by
  obtain ⟨clauses, hclauses, rfl⟩ := writes_of_parse hfirst
  obtain ⟨others, hothers, rfl⟩ := writes_of_parse hsecond
  have hjoin := parse_of_writes (writes_join hclauses hothers)
  have happend := testOfClauses_append hclauses.ne_nil hothers.ne_nil
  exact ⟨clauses, others, rfl, rfl, happend, happend ▸ hjoin⟩

/-- Where a test was put into the store, a node is found to pass it or not. -/
theorem isMatch_kept {σ : Type} {clauses : List (Clause Scalar)} {store : Store} {place : Place}
    {world : World σ} (hdata : world.store.HasData place.node)
    (hkept : ((testOfClauses clauses).build store).2.Extends world.store) (host : Host σ) :
    ∃ verdict,
      Check.isMatch host place ((testOfClauses clauses).build store).1 world = .ok verdict world ∧
      (verdict = true ↔ ∃ clause ∈ clauses, clause.Holds world.store place.node) := by
  simp only [Check.isMatch, bind, EStateM.bind, convert_kept hkept]
  exact test_checkOfClauses hdata clauses

/-- Two selectors with a comma between them are a selector. Its alternatives are
    those of the first and then those of the second, and a node passes it if it
    passes one of the two. -/
theorem parse_join_matches_either {σ : Type} {first second : String} {test other datum : Datum}
    {store holding held kept later : Store} {node value another both : Value}
    (hfirst : parse first = .ok test) (hsecond : parse second = .ok other)
    (hnode : datum.build store = (node, holding)) (htest : test.build holding = (value, held))
    (hother : other.build held = (another, kept))
    (hboth : (Datum.list (choices test ++ choices other)).build kept = (both, later))
    (host : Host σ) (index parent : Value) (journal : List Entry) (user : σ) :
    parse (first ++ "," ++ second) = .ok (.list (choices test ++ choices other)) ∧
    ∃ one two,
      Check.isMatch host ⟨node, index, parent⟩ value ⟨later, journal, user⟩ =
        .ok one ⟨later, journal, user⟩ ∧
      Check.isMatch host ⟨node, index, parent⟩ another ⟨later, journal, user⟩ =
        .ok two ⟨later, journal, user⟩ ∧
      Check.isMatch host ⟨node, index, parent⟩ both ⟨later, journal, user⟩ =
        .ok (one || two) ⟨later, journal, user⟩ := by
  obtain ⟨clauses, others, rfl, rfl, happend, hjoin⟩ := parse_join hfirst hsecond
  refine ⟨hjoin, ?_⟩
  rw [← happend] at hboth
  -- What was put into the store stays there while the rest is added.
  obtain ⟨rfl, rfl⟩ := Prod.mk.inj hnode
  obtain ⟨rfl, rfl⟩ := Prod.mk.inj htest
  obtain ⟨rfl, rfl⟩ := Prod.mk.inj hother
  obtain ⟨rfl, rfl⟩ := Prod.mk.inj hboth
  have hkept := Datum.extends_build (testOfClauses (clauses ++ others))
    ((testOfClauses others).build ((testOfClauses clauses).build (datum.build store).2).2).2
  have hheld := (Datum.extends_build (testOfClauses others)
    ((testOfClauses clauses).build (datum.build store).2).2).trans hkept
  have hholding := (Datum.extends_build (testOfClauses clauses) (datum.build store).2).trans hheld
  have hdata := Store.hasData_build hholding
  obtain ⟨one, hone, honeIff⟩ :=
    @isMatch_kept σ _ _ ⟨_, index, parent⟩ ⟨_, journal, user⟩ hdata hheld host
  obtain ⟨two, htwo, htwoIff⟩ :=
    @isMatch_kept σ _ _ ⟨_, index, parent⟩ ⟨_, journal, user⟩ hdata hkept host
  obtain ⟨either, heither, heitherIff⟩ :=
    @isMatch_kept σ _ _ ⟨_, index, parent⟩ ⟨_, journal, user⟩ hdata (.refl _) host
  refine ⟨one, two, hone, htwo, ?_⟩
  have hor : either = (one || two) := by
    rw [Bool.eq_iff_iff, Bool.or_eq_true, heitherIff, honeIff, htwoIff]
    simp only [List.mem_append, or_and_right, exists_or]
  rw [heither, hor]

/-- A type and a property whose value is a quoted comma. -/
def quotedComma : Datum := .mapping [("type", .text "p"), ("s", .text ",")]

/-- A type, or any node at all. -/
def anyBesides : Datum := .list [.text "q", .null]

/-- A node of another type, the two tests and the test of both, one after the
    other in the store. -/
def slip : Value × Store := (Datum.mapping [("type", .text "q")]).build .empty

def slipFirst : Value × Store := quotedComma.build slip.2

def slipSecond : Value × Store := anyBesides.build slipFirst.2

def slipBoth : Value × Store := (Datum.list [quotedComma, .text "q", .null]).build slipSecond.2

theorem parse_join_matches_slip :
    parse " p[s=\",\"] " = .ok quotedComma ∧ parse "q,*" = .ok anyBesides ∧
    parse " p[s=\",\"] ,q,*" = .ok (.list [quotedComma, .text "q", .null]) ∧
    ∃ one two,
      Check.isMatch (fun _ _ state => .ok .null state) ⟨slip.1, .null, .null⟩ slipFirst.1
        ⟨slipBoth.2, [], ()⟩ = .ok one ⟨slipBoth.2, [], ()⟩ ∧
      Check.isMatch (fun _ _ state => .ok .null state) ⟨slip.1, .null, .null⟩ slipSecond.1
        ⟨slipBoth.2, [], ()⟩ = .ok two ⟨slipBoth.2, [], ()⟩ ∧
      Check.isMatch (fun _ _ state => .ok .null state) ⟨slip.1, .null, .null⟩ slipBoth.1
        ⟨slipBoth.2, [], ()⟩ = .ok (one || two) ⟨slipBoth.2, [], ()⟩ := by
  have hfirst : parse " p[s=\",\"] " = .ok quotedComma := by cbv
  have hsecond : parse "q,*" = .ok anyBesides := by cbv
  exact ⟨hfirst, hsecond,
    parse_join_matches_either hfirst hsecond rfl rfl rfl rfl _ _ _ _ _⟩

end Lineage.Selector
