import Lineage.Check.Test
import Lineage.Proofs.Selector.Parsing
import Lineage.Proofs.Store.Growth

namespace Lineage

/-- Equality with a scalar, which no compound value has. -/
def Value.isScalar (scalar : Scalar) : Value → Bool
  | .scalar s => s.equal scalar
  | _ => false

namespace Store

variable {store : Store} {node actual : Value}

/-- A node has a property, and its value agrees with a scalar. -/
def Has (store : Store) (node : Value) (key : String) (scalar : Scalar) : Prop :=
  ∃ actual, store.property? node key = some actual ∧ store.agrees actual (.scalar scalar) = .ok true

/-- All properties of a value are data. -/
def HasData (store : Store) (node : Value) : Prop :=
  ∀ key value, store.property? node key = some value → store.IsData value

/-- The properties of plain data are data, whatever is put into the store
    afterwards. -/
theorem hasData_build {datum : Datum} {later : Store}
    (hextends : (datum.build store).2.Extends later) : later.HasData (datum.build store).1 := by
  intro key actual hproperty
  rw [(Datum.isData_build datum store).property?_eq hextends] at hproperty
  exact (Datum.isData_of_property? hproperty).extend hextends

/-- Only a value that refuses comparison fails to be compared with a scalar. -/
theorem equal_scalar_of_comparable (hcomparable : store.refusal? actual = none)
    (scalar : Scalar) : store.equal actual (.scalar scalar) = .ok (actual.isScalar scalar) := by
  have hscalar : store.refusal? (.scalar scalar) = none := rfl
  cases actual <;> simp only [equal, equalAt, hcomparable, hscalar] <;> rfl

theorem equal_scalar (hdata : store.IsData actual) (scalar : Scalar) :
    store.equal actual (.scalar scalar) = .ok (actual.isScalar scalar) :=
  equal_scalar_of_comparable hdata.refusal?_eq_none scalar

theorem agrees_scalar (hdata : store.IsData actual) (scalar : Scalar) :
    ∃ verdict, store.agrees actual (.scalar scalar) = .ok verdict := by
  rw [agrees, equal_scalar hdata]
  split
  · exact ⟨true, rfl⟩
  · split
    · exact ⟨false, rfl⟩
    · exact ⟨_, rfl⟩

/-- Where a text is expected, values agree if they are equal: that booleans are
    told apart from numbers makes no difference. -/
theorem agrees_text (hdata : store.IsData actual) (name : String) :
    store.agrees actual (.text name) = store.equal actual (.text name) := by
  rw [agrees, equal_scalar hdata]
  cases actual with
  | scalar s => cases s <;> rfl
  | function f => cases hdata
  | cell ref =>
    rw [if_neg (by simp [Value.same])]
    split <;> rfl

/-- The type of a node is compared like any other property. -/
theorem equal_typeOf (hdata : store.HasData node) (name : String) :
    ∃ verdict, store.equal (store.typeOf node) (.text name) = .ok verdict ∧
      (verdict = true ↔ store.Has node "type" (.text name)) := by
  cases hproperty : store.property? node "type" with
  | none =>
    have htype : store.typeOf node = .null := by rw [typeOf, hproperty]; rfl
    rw [htype]
    refine ⟨false, @equal_scalar store .null trivial _, ?_⟩
    simp [Has, hproperty]
  | some actual =>
    have htype : store.typeOf node = actual := by rw [typeOf, hproperty]; rfl
    have hactual := hdata _ _ hproperty
    obtain ⟨verdict, hverdict⟩ := agrees_scalar hactual (.text name)
    rw [htype, ← agrees_text hactual]
    refine ⟨verdict, hverdict, ?_⟩
    simp [Has, hproperty, hverdict]

/-- A pattern of scalars is decided, and holds if every field of it does. -/
theorem hasAll_scalars (hdata : store.HasData node) (fields : List (String × Scalar)) :
    ∃ verdict,
      Check.hasAll store node (fields.map fun field => (field.1, .scalar field.2)) = .ok verdict ∧
      (verdict = true ↔ ∀ field ∈ fields, store.Has node field.1 field.2) := by
  induction fields with
  | nil => exact ⟨true, rfl, by simp⟩
  | cons field rest ih =>
    obtain ⟨others, hothers, hiff⟩ := ih
    rw [List.map_cons, Check.hasAll_cons]
    cases hproperty : store.property? node field.1 with
    | none => exact ⟨false, rfl, by simp [Has, hproperty]⟩
    | some actual =>
      obtain ⟨verdict, hverdict⟩ := agrees_scalar (hdata _ _ hproperty) field.2
      have hfirst : store.Has node field.1 field.2 ↔ verdict = true := by
        simp [Has, hproperty, hverdict]
      rw [List.forall_mem_cons, hfirst, ← hiff]
      cases verdict with
      | false => exact ⟨false, by simp [hverdict]; rfl, by simp⟩
      | true => exact ⟨others, by simp [hverdict]; exact hothers, by simp⟩

end Store

namespace Selector

variable {σ : Type} {host : Host σ} {place : Place} {world : World σ}

/-- The check that an alternative is converted to. -/
def Clause.check (clause : Clause Scalar) : Check :=
  match clause with
  | ⟨none, []⟩ => .anything
  | ⟨some name, []⟩ => .typeName (.text name)
  | clause => .properties ((lastWritten clause.fields).map fun field => (field.1, .scalar field.2))

/-- What a selector stands for as a check: several alternatives are several
    checks of which one must pass. -/
def checkOfClauses : List (Clause Scalar) → Check
  | [clause] => clause.check
  | clauses => .anyOf (clauses.map Clause.check)

/-- A node has every property that an alternative asks for, with the value that
    was written last for its key. -/
def Clause.Holds (clause : Clause Scalar) (store : Store) (node : Value) : Prop :=
  ∀ key scalar, clause.fields.reverse.lookup key = some scalar → store.Has node key scalar

theorem Clause.holds_iff {clause : Clause Scalar} {store : Store} {node : Value} :
    clause.Holds store node ↔
      ∀ field ∈ lastWritten clause.fields, store.Has node field.1 field.2 := by
  constructor
  · intro hholds field hmem
    exact hholds _ _ (mem_lastWritten.mp hmem)
  · intro hall key scalar hlookup
    exact hall (key, scalar) (mem_lastWritten.mpr hlookup)

section Verdict

variable (hdata : world.store.HasData place.node)

include hdata

theorem test_check (clause : Clause Scalar) :
    ∃ verdict, clause.check.test host place world = .ok verdict world ∧
      (verdict = true ↔ clause.Holds world.store place.node) := by
  have hproperties : ∀ fields : List (String × Scalar), ∃ verdict,
      (Check.properties (fields.map fun field => (field.1, .scalar field.2))).test host place world =
        .ok verdict world ∧
      (verdict = true ↔ ∀ field ∈ fields, world.store.Has place.node field.1 field.2) := by
    intro fields
    obtain ⟨verdict, hall, hiff⟩ := Store.hasAll_scalars hdata fields
    refine ⟨verdict, ?_, hiff⟩
    show Act.ofExcept (Check.hasAll world.store place.node _) world = _
    rw [hall]
    rfl
  rw [Clause.holds_iff]
  match clause with
  | ⟨none, []⟩ => exact ⟨true, rfl, by simp [Clause.fields, lastWritten]⟩
  | ⟨some name, []⟩ =>
    obtain ⟨verdict, hequal, hiff⟩ := Store.equal_typeOf hdata name
    refine ⟨verdict, ?_, ?_⟩
    · show Act.ofExcept (world.store.equal _ _) world = _
      rw [hequal]
      rfl
    · rw [hiff]
      simp [Clause.fields, lastWritten]
  | ⟨none, first :: rest⟩ => exact hproperties _
  | ⟨some name, first :: rest⟩ => exact hproperties _

/-- The alternatives are tried until one holds. -/
theorem testAny_checks (clauses : List (Clause Scalar)) :
    ∃ verdict, Check.testAny host place (clauses.map Clause.check) world = .ok verdict world ∧
      (verdict = true ↔ ∃ clause ∈ clauses, clause.Holds world.store place.node) := by
  induction clauses with
  | nil => exact ⟨false, rfl, by simp⟩
  | cons clause rest ih =>
    obtain ⟨verdict, htest, hiff⟩ := @test_check _ host _ _ hdata clause
    obtain ⟨others, hothers, hrest⟩ := ih
    simp only [List.mem_cons, exists_eq_or_imp, ← hiff, ← hrest]
    rw [List.map_cons, Check.testAny]
    cases verdict with
    | true =>
      refine ⟨true, ?_, by simp⟩
      simp only [bind, EStateM.bind, htest]
      rfl
    | false =>
      refine ⟨others, ?_, by simp⟩
      simp only [bind, EStateM.bind, htest]
      exact hothers

theorem test_checkOfClauses (clauses : List (Clause Scalar)) :
    ∃ verdict, (checkOfClauses clauses).test host place world = .ok verdict world ∧
      (verdict = true ↔ ∃ clause ∈ clauses, clause.Holds world.store place.node) := by
  match clauses with
  | [] => exact @testAny_checks _ host _ _ hdata []
  | [clause] =>
    obtain ⟨verdict, htest, hiff⟩ := @test_check _ host _ _ hdata clause
    exact ⟨verdict, htest, by simpa using hiff⟩
  | first :: second :: rest => exact testAny_checks hdata (first :: second :: rest)

end Verdict

section Conversion

theorem buildFields_asData (fields : List (String × Scalar)) (store : Store) :
    Datum.buildFields (asData fields) store =
      (fields.map fun field => (field.1, .scalar field.2), store) := by
  induction fields with
  | nil => rfl
  | cons field rest ih =>
    show Datum.buildFields ((field.1, .scalar field.2) :: asData rest) store = _
    simp only [Datum.buildFields, Datum.build, ih, List.map_cons]

/-- The test of an alternative is read as its check for as long as the store
    keeps it. -/
theorem read_build_test {clause : Clause Scalar} {store later : Store}
    (hextends : (clause.test.build store).2.Extends later) :
    Check.read later (clause.test.build store).1 = .plain clause.check := by
  have hmapping : ∀ fields : List (String × Scalar),
      ((Datum.mapping (asData fields)).build store).2.Extends later →
      Check.read later ((Datum.mapping (asData fields)).build store).1 =
        .plain (.properties (fields.map fun field => (field.1, .scalar field.2))) := by
    intro fields hlater
    simp only [Datum.build, buildFields_asData] at hlater ⊢
    have hget := hlater _ _ (Store.get?_alloc_self _ _)
    show Check.read later (.cell ⟨store.size⟩) = _
    simp only [Check.read, hget]
  obtain ⟨type, predicates⟩ := clause
  cases predicates with
  | nil => cases type <;> rfl
  | cons first rest =>
    cases type with
    | none => exact hmapping _ hextends
    | some name => exact hmapping _ hextends

theorem convertAll_tests {clauses : List (Clause Scalar)} {store : Store} {fuel : Nat}
    (hextends : (Datum.buildItems (clauses.map Clause.test) store).2.Extends world.store) :
    Check.convertAll (Check.convertAt (fuel + 1))
        (Datum.buildItems (clauses.map Clause.test) store).1 world =
      .ok (clauses.map Clause.check) world := by
  induction clauses generalizing store with
  | nil => rfl
  | cons clause rest ih =>
    have hfirst := (Datum.extends_buildItems (rest.map Clause.test) _).trans hextends
    have hread := read_build_test hfirst
    have hrest := ih hextends
    show Check.convertAll (Check.convertAt (fuel + 1))
      ((clause.test.build store).1 ::
        (Datum.buildItems (rest.map Clause.test) (clause.test.build store).2).1) world = _
    have hconvert : Check.convertAt (fuel + 1) (clause.test.build store).1 world =
        .ok clause.check world := by
      simp only [Check.convertAt, Act.store, bind, EStateM.bind, hread]
      rfl
    rw [Check.convertAll]
    simp only [bind, EStateM.bind, hconvert, hrest]
    rfl

/-- A selector's test is converted for as long as the store keeps it. -/
theorem convert_kept {clauses : List (Clause Scalar)} {store : Store}
    (hkept : ((testOfClauses clauses).build store).2.Extends world.store) :
    Check.convert ((testOfClauses clauses).build store).1 world =
      .ok (checkOfClauses clauses) world := by
  have hlist : ∀ clauses : List (Clause Scalar),
      ((Datum.list (clauses.map Clause.test)).build store).2.Extends world.store →
      Check.convert ((Datum.list (clauses.map Clause.test)).build store).1 world =
        .ok (.anyOf (clauses.map Clause.check)) world := by
    intro clauses hkept
    have hextends : (Datum.buildItems (clauses.map Clause.test) store).2.Extends world.store :=
      (Store.extends_alloc _ _).trans hkept
    have hget := hkept _ _ (Store.get?_alloc_self
      (Datum.buildItems (clauses.map Clause.test) store).2
      (.list (Datum.buildItems (clauses.map Clause.test) store).1))
    -- The list takes an address, so the members are converted with depth left.
    obtain ⟨depth, hdepth⟩ : ∃ depth, world.store.size = depth + 1 := by
      have hlt := Store.address_lt_of_get? hget
      exact ⟨_, (Nat.succ_pred_eq_of_pos (Nat.lt_of_le_of_lt (Nat.zero_le _) hlt)).symm⟩
    have hread : Check.read world.store ((Datum.list (clauses.map Clause.test)).build store).1 =
        .members (Datum.buildItems (clauses.map Clause.test) store).1 := by
      show Check.read world.store (.cell ⟨(Datum.buildItems _ store).2.size⟩) = _
      simp only [Check.read, hget]
    have hmembers := @convertAll_tests _ world clauses store depth hextends
    simp only [Check.convert, Act.store, bind, EStateM.bind, hdepth]
    rw [Check.convertAt]
    simp only [Act.store, bind, EStateM.bind, hread, hmembers]
    rfl
  cases clauses with
  | nil => exact hlist [] hkept
  | cons clause rest =>
    cases rest with
    | nil =>
      have hread := @read_build_test clause store world.store hkept
      simp only [Check.convert, Check.convertAt, Act.store, bind, EStateM.bind]
      simp only [testOfClauses, hread]
      rfl
    | cons second rest => exact hlist _ hkept

theorem convert_test {clauses : List (Clause Scalar)} {store : Store}
    (hbuilt : world.store = ((testOfClauses clauses).build store).2) :
    Check.convert ((testOfClauses clauses).build store).1 world =
      .ok (checkOfClauses clauses) world := by
  apply convert_kept
  rw [hbuilt]
  exact .refl _

end Conversion

/-- A node passes a selector if it passes one of the alternatives, and it passes
    an alternative if it has every property asked for, each with the value that
    was written last for its key. -/
theorem isMatch_iff_holds {selector : String} {clauses : List (Clause Scalar)} {datum : Datum}
    {store holding later : Store} {node value : Value} (hwrites : Writes selector clauses)
    (hnode : datum.build store = (node, holding))
    (htest : (testOfClauses clauses).build holding = (value, later))
    (host : Host σ) (index parent : Value) (journal : List Entry) (user : σ) :
    parse selector = .ok (testOfClauses clauses) ∧
    ∃ verdict,
      Check.isMatch host ⟨node, index, parent⟩ value ⟨later, journal, user⟩ =
        .ok verdict ⟨later, journal, user⟩ ∧
      (verdict = true ↔ ∃ clause ∈ clauses, clause.Holds later node) := by
  refine ⟨parse_of_writes hwrites, ?_⟩
  have hextends : holding.Extends later := by
    have hbuild := Datum.extends_build (testOfClauses clauses) holding
    rwa [htest] at hbuild
  have hdata : later.HasData node := by
    have hbuild := @Store.hasData_build store datum later (by rwa [hnode])
    rwa [hnode] at hbuild
  have hconvert := @convert_test σ ⟨later, journal, user⟩ clauses holding (by rw [htest])
  rw [htest] at hconvert
  simp only [Check.isMatch, bind, EStateM.bind, hconvert]
  exact @test_checkOfClauses σ host ⟨node, index, parent⟩ ⟨later, journal, user⟩ hdata clauses

/-- Keys written more than once, and a type beside a predicate on the type. -/
def rewritten : List (Clause Scalar) :=
  [⟨some "p", [("n", .int 1), ("n", .int 2), ("type", .text "q")]⟩]

/-- A node that has what was written last. -/
def card : Value × Store :=
  (Datum.mapping [("type", .text "q"), ("n", .int 2)]).build .empty

/-- The test for such nodes, beside the node. -/
def cardTest : Value × Store :=
  (testOfClauses rewritten).build card.2

theorem writes_rewritten : Writes "p[n=1][n=2][type=q]" rewritten := by
  have hvalue : ∀ (c : Char) (scalar : Scalar), isBareChar c = true →
      barewordValue (String.ofList [c]) = scalar → WritesValue [c] scalar := by
    rintro c scalar hbare rfl
    exact .bare ⟨by simp, by simpa using hbare⟩
  have hlast : WritesPredicates WritesValue [['['], ['t', 'y', 'p', 'e'], ['='], ['q'], [']']]
      [("type", .text "q")] :=
    .cons ⟨by decide, by simp [isNameChar, isNameStart]⟩ (hvalue 'q' (.text "q") (by decide) (by decide)) .nil
  have hname : IsName ['n'] := ⟨by decide, by simp⟩
  exact ⟨_, laid_flatten [['p'], ['['], ['n'], ['='], ['1'], [']'], ['['], ['n'], ['='], ['2'], [']'],
      ['['], ['t', 'y', 'p', 'e'], ['='], ['q'], [']']],
    .last (.named ⟨by decide, by simp⟩
      (.cons hname (hvalue '1' (.int 1) (by decide) (by decide))
        (.cons hname (hvalue '2' (.int 2) (by decide) (by decide)) hlast)))⟩

theorem rewritten_isMatch_card : Writes "p[n=1][n=2][type=q]" rewritten ∧
    parse "p[n=1][n=2][type=q]" = .ok (testOfClauses rewritten) ∧
    ∃ verdict,
      Check.isMatch (fun _ _ state => .ok .null state) ⟨card.1, .null, .null⟩ cardTest.1
        ⟨cardTest.2, [], ()⟩ = .ok verdict ⟨cardTest.2, [], ()⟩ ∧
      (verdict = true ↔ ∃ clause ∈ rewritten, clause.Holds cardTest.2 card.1) :=
  ⟨writes_rewritten, isMatch_iff_holds writes_rewritten rfl rfl _ _ _ _ _⟩

/-- The node passes although it has not all that is written. -/
theorem rewritten_isMatch_in_part : Writes "p[n=1][n=2][type=q]" rewritten ∧
    parse "p[n=1][n=2][type=q]" = .ok (testOfClauses rewritten) ∧
    Check.isMatch (fun _ _ state => .ok .null state) ⟨card.1, .null, .null⟩ cardTest.1
      ⟨cardTest.2, [], ()⟩ = .ok true ⟨cardTest.2, [], ()⟩ ∧
    ¬∃ clause ∈ rewritten, ∀ field ∈ clause.fields, cardTest.2.Has card.1 field.1 field.2 := by
  refine ⟨writes_rewritten, parse_of_writes writes_rewritten, rfl, ?_⟩
  rintro ⟨clause, hclause, hall⟩
  obtain rfl := List.mem_singleton.mp hclause
  obtain ⟨actual, hproperty, hagrees⟩ := hall ("type", .text "p") List.mem_cons_self
  obtain rfl : Value.text "q" = actual := Option.some.inj hproperty
  cases hagrees

end Selector

end Lineage
