import Lineage.Proofs.Json.Fields
import Lineage.Proofs.Json.Strings
import Lineage.Selector.Parse

namespace Lineage.Selector

/-- A name: a letter or an underscore, then letters, figures, underscores and
    hyphens. -/
def IsName : List Char → Prop
  | [] => False
  | c :: rest => isNameStart c = true ∧ ∀ d ∈ rest, isNameChar d = true

/-- A bareword: one or more characters that barewords may have. -/
def IsBareword (cs : List Char) : Prop :=
  cs ≠ [] ∧ ∀ c ∈ cs, isBareChar c = true

/-- Lexemes laid out as a text: any number of blanks stands before each of them
    and after the last. -/
inductive Laid : List (List Char) → List Char → Prop where
  | nil {blanks : List Char} (hblanks : ∀ c ∈ blanks, isBlank c = true) : Laid [] blanks
  | cons {blanks lexeme rest : List Char} {lexemes : List (List Char)}
      (hblanks : ∀ c ∈ blanks, isBlank c = true) (hrest : Laid lexemes rest) :
      Laid (lexeme :: lexemes) (blanks ++ (lexeme ++ rest))

/-- An alternative as it is written: a type, unless any type will do, and
    predicates in their order. -/
structure Clause (α : Type) where
  type : Option String
  predicates : List (String × α)

section Grammar

variable {α : Type} (reads : List Char → α → Prop)

/-- Predicates, each a key and a value between brackets. How values are written
    is left to `reads`. -/
inductive WritesPredicates : List (List Char) → List (String × α) → Prop where
  | nil : WritesPredicates [] []
  | cons {key value : List Char} {a : α} {lexemes : List (List Char)}
      {predicates : List (String × α)} (hkey : IsName key) (hvalue : reads value a)
      (hrest : WritesPredicates lexemes predicates) :
      WritesPredicates (['['] :: key :: ['='] :: value :: [']'] :: lexemes)
        ((String.ofList key, a) :: predicates)

/-- An alternative: a name or a star and any number of predicates, or else at
    least one predicate. -/
inductive WritesClause : List (List Char) → Clause α → Prop where
  | named {name : List Char} {lexemes : List (List Char)} {predicates : List (String × α)}
      (hname : IsName name) (hpredicates : WritesPredicates reads lexemes predicates) :
      WritesClause (name :: lexemes) ⟨some (String.ofList name), predicates⟩
  | anyType {lexemes : List (List Char)} {predicates : List (String × α)}
      (hpredicates : WritesPredicates reads lexemes predicates) :
      WritesClause (['*'] :: lexemes) ⟨none, predicates⟩
  | untyped {lexemes : List (List Char)} {predicates : List (String × α)}
      (hpredicates : WritesPredicates reads lexemes predicates) (hsome : predicates ≠ []) :
      WritesClause lexemes ⟨none, predicates⟩

/-- One or more alternatives with commas between them. -/
inductive WritesClauses : List (List Char) → List (Clause α) → Prop where
  | last {lexemes : List (List Char)} {clause : Clause α}
      (hclause : WritesClause reads lexemes clause) : WritesClauses lexemes [clause]
  | cons {lexemes more : List (List Char)} {clause : Clause α} {clauses : List (Clause α)}
      (hclause : WritesClause reads lexemes clause) (hmore : WritesClauses more clauses) :
      WritesClauses (lexemes ++ [','] :: more) (clause :: clauses)

end Grammar

/-- A value and how it is written: a bareword, or a string of a document with
    its quotes. -/
inductive WritesValue : List Char → Scalar → Prop where
  | bare {cs : List Char} (hbare : IsBareword cs) :
      WritesValue cs (barewordValue (String.ofList cs))
  | quoted {text chars : List Char} (hbetween : Json.Between text chars) :
      WritesValue ('"' :: (text ++ ['"'])) (.text (String.ofList chars))

/-- A text that writes alternatives by the grammar of selectors. -/
def Writes (selector : String) (clauses : List (Clause Scalar)) : Prop :=
  ∃ lexemes, Laid lexemes selector.toList ∧ WritesClauses WritesValue lexemes clauses

/-- The fields that an alternative asks for, as written: its type first. -/
def Clause.fields (clause : Clause Scalar) : List (String × Scalar) :=
  clause.type.toList.map (fun name => ("type", .text name)) ++ clause.predicates

/-- The test that an alternative stands for. -/
def Clause.test (clause : Clause Scalar) : Datum :=
  match clause with
  | ⟨none, []⟩ => .null
  | ⟨some name, []⟩ => .text name
  | clause => .mapping ((lastWritten clause.fields).map fun field => (field.1, .scalar field.2))

/-- The test that a selector stands for: a list if there are several
    alternatives. -/
def testOfClauses : List (Clause Scalar) → Datum
  | [clause] => clause.test
  | clauses => .list (clauses.map Clause.test)

end Lineage.Selector
