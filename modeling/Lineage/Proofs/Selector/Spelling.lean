import Lineage.Proofs.Json.Texts
import Lineage.Proofs.Selector.Parsing

namespace Lineage.Selector

/-- The values that selectors can write: null, booleans, texts, and integers
    that are short enough to be read. -/
def IsPlain : Scalar → Prop
  | .null | .bool _ | .text _ => True
  | .int n => (Nat.toDigits 10 n.natAbs).length ≤ Numeral.maxDigits
  | .float _ | .action _ => False

/-- What an alternative starts with: nothing, a star or a type. -/
inductive Head where
  | absent
  | star
  | type (name : String)

/-- The characters that an alternative starts with. -/
def Head.spelled : Head → List Char
  | absent => []
  | star => ['*']
  | type name => name.toList

/-- An alternative over names and plain values. The keys of its predicates
    differ, and the type is given at most once. -/
structure Wish where
  head : Head
  predicates : List (String × Scalar)
  hname : ∀ name, head = .type name → IsName name.toList ∧ "type" ∉ predicates.map Prod.fst
  hsome : head = .absent → predicates ≠ []
  hkeys : ∀ predicate ∈ predicates, IsName predicate.1.toList
  hnodup : (predicates.map Prod.fst).Nodup
  hvalues : ∀ predicate ∈ predicates, IsPlain predicate.2

/-- The test that is meant: the type if it is all there is, null if there is
    nothing, and else a mapping with the type in front. -/
def Wish.test (wish : Wish) : Datum :=
  match wish.head, wish.predicates with
  | .type name, [] => .text name
  | .type name, predicates => .mapping (("type", .text name) :: asData predicates)
  | _, [] => .null
  | _, predicates => .mapping (asData predicates)

/-- The test that alternatives mean; a single one means its own. -/
def testOfWishes : List Wish → Datum
  | [wish] => wish.test
  | wishes => .list (wishes.map Wish.test)

/-- A value and how it is spelled: a text as any string of a document that reads
    as it, any other value as it stands in a document. -/
inductive SpellsValue : List Char → Scalar → Prop where
  | text {literal chars : List Char} (hbetween : Json.Between literal chars) :
      SpellsValue ('"' :: (literal ++ ['"'])) (.text (String.ofList chars))
  | other {scalar : Scalar} (hother : scalar.kind ≠ .text) :
      SpellsValue (Json.writeScalar .full scalar).toList scalar

/-- Predicates spelled one after the other without blanks. -/
inductive SpellsPredicates : List Char → List (String × Scalar) → Prop where
  | nil : SpellsPredicates [] []
  | cons {key : String} {value rest : List Char} {scalar : Scalar}
      {predicates : List (String × Scalar)} (hvalue : SpellsValue value scalar)
      (hrest : SpellsPredicates rest predicates) :
      SpellsPredicates ('[' :: (key.toList ++ '=' :: (value ++ ']' :: rest)))
        ((key, scalar) :: predicates)

/-- Alternatives spelled with commas between them. -/
inductive Spells : List Char → List Wish → Prop where
  | last {wish : Wish} {rest : List Char} (hrest : SpellsPredicates rest wish.predicates) :
      Spells (wish.head.spelled ++ rest) [wish]
  | cons {wish : Wish} {wishes : List Wish} {rest more : List Char}
      (hrest : SpellsPredicates rest wish.predicates) (hmore : Spells more wishes) :
      Spells (wish.head.spelled ++ rest ++ ',' :: more) (wish :: wishes)

section Values

variable {scalar : Scalar} {value : List Char}

theorem isBareChar_of_isDigit {c : Char} (hdigit : c.isDigit = true) : isBareChar c = true := by
  have hpadding := Numeral.isPadding_eq_false (Or.inl hdigit)
  obtain ⟨hlow, hhigh⟩ := Text.isDigit_iff.mp hdigit
  have hspace : Text.isSpace c = false := by
    simp only [Numeral.isPadding] at hpadding
    grind
  have hsign : ∀ d : Char, d.toNat < 48 ∨ 57 < d.toNat → (c == d) = false := by
    intro d hd
    rw [beq_eq_false_iff_ne]
    rintro rfl
    omega
  simp only [isBareChar, hspace, hsign ']' (by decide), hsign ',' (by decide),
    hsign '"' (by decide)]
  rfl

/-- An integer in writing is a bareword. -/
theorem isBareword_toString (n : Int) : IsBareword (toString n).toList := by
  rw [Numeral.toList_toString]
  refine ⟨by simp [Nat.toDigits_ne_nil], ?_⟩
  intro c hc
  rcases List.mem_append.mp hc with hc | hc
  · split at hc
    · obtain rfl := List.mem_singleton.mp hc
      decide
    · cases hc
  · exact isBareChar_of_isDigit (Numeral.isDigit_of_mem_toDigits hc)

/-- No integer in writing is a keyword. -/
theorem barewordValue_toString {n : Int}
    (hshort : (Nat.toDigits 10 n.natAbs).length ≤ Numeral.maxDigits) :
    barewordValue (toString n) = .int n := by
  have hread := Numeral.readInt?_toString hshort
  have hword : ∀ word : String, Numeral.readInt? word = none → toString n ≠ word := by
    rintro word hnone hsame
    rw [hsame, hnone] at hread
    cases hread
  rw [barewordValue]
  · rw [hread]
  · exact hword "true" (by decide)
  · exact hword "false" (by decide)
  · exact hword "null" (by decide)

/-- Plain values are written as they are spelled. -/
theorem writesValue_of_spells (hspells : SpellsValue value scalar) (hplain : IsPlain scalar) :
    WritesValue value scalar := by
  have hword : ∀ {word : String} {found : Scalar}, IsBareword word.toList →
      barewordValue word = found → WritesValue word.toList found := by
    rintro word _ hbare rfl
    have hwrites := WritesValue.bare hbare
    rwa [String.ofList_toList] at hwrites
  cases hspells with
  | text hbetween => exact .quoted hbetween
  | other hother =>
    cases scalar with
    | null => exact hword ⟨by decide, List.all_eq_true.mp rfl⟩ rfl
    | bool b => cases b <;> exact hword ⟨by decide, List.all_eq_true.mp rfl⟩ rfl
    | int n => exact hword (isBareword_toString n) (barewordValue_toString hplain)
    | text s => exact absurd rfl hother
    | float x => exact hplain.elim
    | action a => exact hplain.elim

theorem exists_spellsValue (scalar : Scalar) : ∃ value, SpellsValue value scalar := by
  cases scalar with
  | text s =>
    have hbetween := Json.between_writeChars .full s.toList
    exact ⟨_, by simpa using SpellsValue.text hbetween⟩
  | _ => exact ⟨_, .other (by simp [Scalar.kind])⟩

end Values

section Predicates

variable {predicates : List (String × Scalar)} {rest : List Char}

/-- Predicates that are spelled are written, lexeme after lexeme. -/
theorem writesPredicates_of_spells (hspells : SpellsPredicates rest predicates)
    (hkeys : ∀ predicate ∈ predicates, IsName predicate.1.toList)
    (hvalues : ∀ predicate ∈ predicates, IsPlain predicate.2) :
    ∃ lexemes, rest = lexemes.flatten ∧ WritesPredicates WritesValue lexemes predicates := by
  induction hspells with
  | nil => exact ⟨[], rfl, .nil⟩
  | @cons key value rest scalar predicates hvalue hrest ih =>
    obtain ⟨hkey, hothers⟩ := List.forall_mem_cons.mp hkeys
    obtain ⟨hplain, hmore⟩ := List.forall_mem_cons.mp hvalues
    obtain ⟨lexemes, rfl, hlexemes⟩ := ih hothers hmore
    have hwrites := WritesPredicates.cons hkey (writesValue_of_spells hvalue hplain) hlexemes
    rw [String.ofList_toList] at hwrites
    exact ⟨_, by simp, hwrites⟩

theorem exists_spellsPredicates (predicates : List (String × Scalar)) :
    ∃ rest, SpellsPredicates rest predicates := by
  induction predicates with
  | nil => exact ⟨[], .nil⟩
  | cons predicate predicates ih =>
    obtain ⟨rest, hrest⟩ := ih
    obtain ⟨value, hvalue⟩ := exists_spellsValue predicate.2
    exact ⟨_, .cons hvalue hrest⟩

end Predicates

section Wishes

/-- The alternative that the grammar writes for a wish. -/
def Wish.clause (wish : Wish) : Clause Scalar :=
  match wish.head with
  | .type name => ⟨some name, wish.predicates⟩
  | _ => ⟨none, wish.predicates⟩

/-- No field is asked for twice, so none is lost. -/
theorem Wish.test_clause (wish : Wish) : wish.clause.test = wish.test := by
  obtain ⟨head, predicates, hname, hsome, hkeys, hnodup, hvalues⟩ := wish
  cases predicates with
  | nil => cases head <;> rfl
  | cons first others =>
    have huntyped : Clause.test ⟨none, first :: others⟩ = .mapping (asData (first :: others)) := by
      simp only [Clause.test, Clause.fields, Option.toList_none, List.map_nil, List.nil_append,
        lastWritten_of_nodup hnodup]
      rfl
    cases head with
    | absent => exact huntyped
    | star => exact huntyped
    | type name =>
      have hfields : ((("type", Scalar.text name) :: first :: others).map Prod.fst).Nodup :=
        List.nodup_cons.mpr ⟨(hname name rfl).2, hnodup⟩
      simp only [Wish.clause, Clause.test, Clause.fields, Option.toList_some, List.map_cons,
        List.map_nil, List.cons_append, List.nil_append, lastWritten_of_nodup hfields]
      rfl

theorem writesClause_of_spells {wish : Wish} {rest : List Char}
    (hspells : SpellsPredicates rest wish.predicates) :
    ∃ lexemes, wish.head.spelled ++ rest = lexemes.flatten ∧
      WritesClause WritesValue lexemes wish.clause := by
  obtain ⟨head, predicates, hname, hsome, hkeys, hnodup, hvalues⟩ := wish
  obtain ⟨lexemes, rfl, hwrites⟩ := writesPredicates_of_spells hspells hkeys hvalues
  cases head with
  | absent => exact ⟨lexemes, rfl, .untyped hwrites (hsome rfl)⟩
  | star => exact ⟨['*'] :: lexemes, rfl, .anyType hwrites⟩
  | type name =>
    have hclause := WritesClause.named (hname name rfl).1 hwrites
    rw [String.ofList_toList] at hclause
    exact ⟨_, rfl, hclause⟩

theorem writes_of_spells {cs : List Char} {wishes : List Wish} (hspells : Spells cs wishes) :
    ∃ lexemes, cs = lexemes.flatten ∧
      WritesClauses WritesValue lexemes (wishes.map Wish.clause) := by
  induction hspells with
  | last hrest =>
    obtain ⟨lexemes, hcs, hclause⟩ := writesClause_of_spells hrest
    exact ⟨lexemes, hcs, .last hclause⟩
  | cons hrest _ ih =>
    obtain ⟨first, hfirst, hclause⟩ := writesClause_of_spells hrest
    obtain ⟨lexemes, rfl, hclauses⟩ := ih
    exact ⟨_, by simp [hfirst], .cons hclause hclauses⟩

theorem testOfClauses_clauses (wishes : List Wish) :
    testOfClauses (wishes.map Wish.clause) = testOfWishes wishes := by
  have hall : (wishes.map Wish.clause).map Clause.test = wishes.map Wish.test := by
    simp [Wish.test_clause]
  match wishes with
  | [] => rfl
  | [wish] => exact wish.test_clause
  | first :: second :: rest => exact congrArg Datum.list hall

theorem exists_spells {wishes : List Wish} (hwishes : wishes ≠ []) : ∃ cs, Spells cs wishes := by
  induction wishes with
  | nil => exact (hwishes rfl).elim
  | cons wish others ih =>
    obtain ⟨rest, hrest⟩ := exists_spellsPredicates wish.predicates
    by_cases hlast : others = []
    · subst hlast
      exact ⟨_, .last hrest⟩
    · obtain ⟨more, hmore⟩ := ih hlast
      exact ⟨_, .cons hrest hmore⟩

/-- Every test over names and plain values can be spelled, and however it is
    spelled it is read back as it was meant. -/
theorem parse_spells {wishes : List Wish} (hwishes : wishes ≠ []) :
    (∃ cs, Spells cs wishes) ∧
    ∀ selector : String, Spells selector.toList wishes → parse selector = .ok (testOfWishes wishes) := by
  refine ⟨exists_spells hwishes, fun selector hspells => ?_⟩
  obtain ⟨lexemes, hlexemes, hclauses⟩ := writes_of_spells hspells
  rw [← testOfClauses_clauses]
  exact parse_of_writes ⟨lexemes, hlexemes ▸ laid_flatten lexemes, hclauses⟩

end Wishes

/-- A type with a negative integer, and a text that closes its predicate before
    its end. -/
def tagged : Wish where
  head := .type "p"
  predicates := [("n", .int (-3)), ("s", .text "],\"\n")]
  hname := by simp [IsName, isNameStart]
  hsome := by simp
  hkeys := by simp [IsName, isNameStart]
  hnodup := by decide
  hvalues := by simp [IsPlain, Numeral.maxDigits, Nat.toDigits_of_lt_base]

/-- A star alone. -/
def anything : Wish where
  head := .star
  predicates := []
  hname := by simp
  hsome := by simp
  hkeys := by simp
  hnodup := by simp
  hvalues := by simp

theorem spells_tagged : Spells "p[n=-3][s=\"],\\\"\\u000a\"],*".toList [tagged, anything] := by
  have hhex : Json.hex4 ['0', '0', '0', 'a'] = some (10, []) := by decide
  have hline : Json.Between ['\\', 'u', '0', '0', '0', 'a'] ['\n'] :=
    .unicode hhex (by decide) .nil
  have hclosing : Json.Between [']', ',', '\\', '"', '\\', 'u', '0', '0', '0', 'a']
      [']', ',', '"', '\n'] :=
    .plain (by decide) (by decide) (by decide)
      (.plain (by decide) (by decide) (by decide) (.short rfl hline))
  have hwritten : (Json.writeScalar .full (.int (-3))).toList = ['-', '3'] := by decide
  have hnumber : SpellsValue ['-', '3'] (.int (-3)) := hwritten ▸ .other (by decide)
  have hpredicates : SpellsPredicates _ tagged.predicates :=
    .cons hnumber (.cons (.text hclosing) .nil)
  exact .cons hpredicates (@Spells.last anything [] .nil)

theorem parse_tagged : [tagged, anything] ≠ [] ∧
    parse "p[n=-3][s=\"],\\\"\\u000a\"],*" = .ok (.list [.mapping [("type", .text "p"),
      ("n", .int (-3)), ("s", .text "],\"\n")], .null]) :=
  ⟨by simp, (@parse_spells [tagged, anything] (by simp)).2 _ spells_tagged⟩

end Lineage.Selector
