import Lineage.Text.Quoted
import Lineage.Text.Space

namespace Lineage.Selector

/-- The terminal symbols of selectors; `ending` stands for the end of the
    text. -/
inductive Terminal where
  | name
  | string
  | bareword
  | star
  | opening
  | closing
  | equals
  | comma
  | ending
  deriving DecidableEq, Repr

/-- The word for a terminal in messages. -/
def Terminal.label : Terminal → String
  | name => "NAME"
  | string => "STRING"
  | bareword => "BAREWORD"
  | star => "STAR"
  | opening => "LSQB"
  | closing => "RSQB"
  | equals => "EQUAL"
  | comma => "COMMA"
  | ending => "$END"

/-- A symbol in a text: which one, how it is written and how many characters
    come before it. -/
structure Token where
  terminal : Terminal
  text : String
  start : Nat
  deriving DecidableEq, Repr

/-- A symbol as messages show it. -/
def Token.shown (token : Token) : String :=
  "Token('" ++ token.terminal.label ++ "', " ++ Text.quoted token.text ++ ")"

/-- The characters that names start with. -/
def isNameStart (c : Char) : Bool :=
  ('a' ≤ c && c ≤ 'z') || ('A' ≤ c && c ≤ 'Z') || c == '_'

/-- The characters that names go on with. -/
def isNameChar (c : Char) : Bool :=
  isNameStart c || ('0' ≤ c && c ≤ '9') || c == '-'

/-- The characters of barewords: all but white space, the comma, the closing
    bracket and the double quote. -/
def isBareChar (c : Char) : Bool :=
  !(c == ']' || c == ',' || c == '"' || Text.isSpace c)

/-- The blanks that may stand between symbols. -/
def isBlank (c : Char) : Bool :=
  c == ' ' || c == '\t'

/-- What comes up to a closing quote, and the rest. A quote closes unless an odd
    number of backslashes stands before it; `odd` says that one does so far. -/
def quotedTail (odd : Bool) : List Char → Option (List Char × List Char)
  | [] => none
  | c :: rest =>
    if c == '\n' then none
    else if c == '"' && !odd then some ([c], rest)
    else (quotedTail (c == '\\' && !odd) rest).map fun (tail, after) => (c :: tail, after)

/-- A run of characters that satisfy a test, if there is one at the start. -/
def run? (p : Char → Bool) (cs : List Char) : Option (List Char × List Char) :=
  match cs.takeWhile p with
  | [] => none
  | run => some (run, cs.dropWhile p)

/-- One given character at the start. -/
def char? (c : Char) : List Char → Option (List Char × List Char)
  | d :: rest => if d == c then some ([c], rest) else none
  | [] => none

/-- The longest piece of text at the start that a terminal stands for, and the
    rest. -/
def Terminal.match? : Terminal → List Char → Option (List Char × List Char)
  | name, c :: rest =>
    if isNameStart c then some (c :: rest.takeWhile isNameChar, rest.dropWhile isNameChar) else none
  | name, [] => none
  | string, '"' :: rest => (quotedTail false rest).map fun (tail, after) => ('"' :: tail, after)
  | string, _ => none
  | bareword, cs => run? isBareChar cs
  | star, cs => char? '*' cs
  | opening, cs => char? '[' cs
  | closing, cs => char? ']' cs
  | equals, cs => char? '=' cs
  | comma, cs => char? ',' cs
  | ending, _ => none

/-- The symbol at the start of the characters when no particular one is looked
    for. A bareword that is one of the signs counts as that sign. -/
def anyTerminal? (cs : List Char) : Option (Terminal × List Char) :=
  [Terminal.name, .string, .bareword, .comma, .closing].findSome? fun terminal =>
    (terminal.match? cs).map fun (lexeme, _) =>
      match terminal, lexeme with
      | .bareword, ['*'] => (.star, lexeme)
      | .bareword, ['['] => (.opening, lexeme)
      | .bareword, ['='] => (.equals, lexeme)
      | _, _ => (terminal, lexeme)

end Lineage.Selector
