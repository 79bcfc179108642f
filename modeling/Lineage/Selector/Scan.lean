import Lineage.Selector.Token

namespace Lineage.Selector

/-- Where in a selector the next symbol stands. -/
inductive State where
  | item
  | afterItem
  | key
  | equals
  | value
  | closing
  deriving DecidableEq, Repr

/-- The symbols that may come next, in the order of their labels. -/
def State.expected : State → List Terminal
  | item => [.opening, .name, .star]
  | afterItem => [.ending, .comma, .opening]
  | key => [.name]
  | equals => [.equals]
  | value => [.bareword, .string]
  | closing => [.closing]

/-- Where the symbol after an expected one stands. -/
def State.next : State → Terminal → State
  | item, .opening => key
  | item, _ => afterItem
  | afterItem, .opening => key
  | afterItem, _ => item
  | key, _ => equals
  | equals, _ => value
  | value, _ => closing
  | closing, _ => afterItem

/-- What stands in place of an expected symbol. -/
inductive Found where
  | token (token : Token)
  | character (c : Char)
  | ending

/-- Why a text is no selector: what stands at an offset where the state expects
    other symbols. -/
structure Mistake where
  state : State
  previous : Option Token
  offset : Nat
  found : Found

/-- The expected symbol at the start of the characters, and the rest. -/
def State.match? (state : State) (cs : List Char) : Option (Terminal × List Char × List Char) :=
  state.expected.findSome? fun terminal =>
    (terminal.match? cs).map fun (lexeme, rest) => (terminal, lexeme, rest)

/-- What stands at the start of the characters instead of an expected symbol. -/
def Found.at (offset : Nat) (cs : List Char) : Found :=
  match anyTerminal? cs, cs with
  | some (terminal, lexeme), _ => .token ⟨terminal, String.ofList lexeme, offset⟩
  | none, c :: _ => .character c
  | none, [] => .ending

/-- Reads the symbols of a selector. Every symbol takes a character at least,
    so one more step than there are characters is enough. -/
def scanFrom : Nat → State → Option Token → Nat → List Char → Except Mistake (List Token)
  | 0, state, previous, offset, _ => throw ⟨state, previous, offset, .ending⟩
  | fuel + 1, state, previous, offset, cs =>
    let blanks := cs.takeWhile isBlank
    let offset := offset + blanks.length
    match cs.dropWhile isBlank with
    | [] =>
      if state.expected.contains .ending then pure []
      else throw ⟨state, previous, offset, .ending⟩
    | cs =>
      match state.match? cs with
      | none => throw ⟨state, previous, offset, .at offset cs⟩
      | some (terminal, lexeme, rest) => do
        let token : Token := ⟨terminal, String.ofList lexeme, offset⟩
        let tokens ← scanFrom fuel (state.next terminal) (some token) (offset + lexeme.length) rest
        pure (token :: tokens)

/-- The symbols of a selector. -/
def scan (selector : String) : Except Mistake (List Token) :=
  let cs := selector.toList
  scanFrom (cs.length + 1) .item none 0 cs

/-- The list of expected symbols, one to a line. -/
def bullets (terminals : List Terminal) : String :=
  "Expected one of: \n" ++ String.join (terminals.map fun t => "\t* " ++ t.label ++ "\n")

/-- How wide a text is when tabs reach to the next multiple of eight columns. -/
def width (cs : List Char) : Nat :=
  (cs.foldl (fun (total, column) c =>
    if c == '\t' then (total + (8 - column % 8), column + (8 - column % 8))
    else if c == '\n' || c == '\r' then (total + 1, 0)
    else (total + 1, column + 1)) (0, 0)).1

/-- The line around an offset, forty characters to each side, and a mark under
    the character there. -/
def excerpt (cs : List Char) (offset : Nat) : String :=
  let before := ((cs.take offset).drop (offset - 40)).reverse.takeWhile (· ≠ '\n') |>.reverse
  let after := ((cs.drop offset).take 40).takeWhile (· ≠ '\n')
  String.ofList (before ++ after) ++ "\n" ++ String.ofList (List.replicate (width before) ' ') ++ "^\n"

/-- The wording of a mistake in a selector. The end of the text is placed where
    the last symbol starts. -/
def Mistake.message (selector : String) (mistake : Mistake) : String :=
  let expected := mistake.state.expected
  match mistake.found with
  | .token token =>
    "Unexpected token " ++ token.shown ++ " at line 1, column " ++ toString (token.start + 1) ++
      ".\n" ++ bullets expected ++ "Previous tokens: [" ++
      ((mistake.previous.map Token.shown).getD "None") ++ "]\n"
  | .ending =>
    let column := ((mistake.previous.map Token.start).getD 0) + 1
    "Unexpected token " ++ (Token.mk .ending "" 0).shown ++ " at line 1, column " ++
      toString column ++ ".\n" ++ bullets expected
  | .character c =>
    "No terminal matches '" ++ c.toString ++ "' in the current parser context, at line 1 col " ++
      toString (mistake.offset + 1) ++ "\n\n" ++ excerpt selector.toList mistake.offset ++
      bullets (expected.filter (· ≠ .ending)) ++
      (match mistake.previous with
      | some token => "\nPrevious tokens: " ++ token.shown ++ "\n"
      | none => "")

end Lineage.Selector
