import Lineage.Fault
import Lineage.Number.Numeral
import Lineage.Text.Digit

namespace Lineage.Json

/-- What can be wrong with the form of a document. -/
inductive Flaw where
  | value
  | propertyName
  | colon
  | comma
  | extra
  | unterminated
  | control
  | escape
  | unicodeEscape
  | byteOrderMark
  deriving DecidableEq, Repr

/-- The wording of a flaw. -/
def Flaw.text : Flaw → String
  | value => "Expecting value"
  | propertyName => "Expecting property name enclosed in double quotes"
  | colon => "Expecting ':' delimiter"
  | comma => "Expecting ',' delimiter"
  | extra => "Extra data"
  | unterminated => "Unterminated string starting at"
  | control => "Invalid control character at"
  | escape => "Invalid \\escape"
  | unicodeEscape => "Invalid \\uXXXX escape"
  | byteOrderMark => "Unexpected UTF-8 BOM (decode using utf-8-sig)"

/-- Why reading stopped: a flaw, placed by how many characters were left there,
    an integer with more digits than are allowed, or a list or mapping that opens
    more levels down than the interpreter may go. -/
inductive Stop where
  | flaw (flaw : Flaw) (left : Nat)
  | longInteger (digits : Nat)
  | tooDeep (descending : Descending)
  deriving DecidableEq, Repr

/-- Stops at a flaw with so many characters left. -/
def fail {α : Type} (flaw : Flaw) (rest : List Char) : Except Stop α :=
  throw (.flaw flaw rest.length)

/-- White space between the parts of a document. -/
def isBlank (c : Char) : Bool :=
  c == ' ' || c == '\t' || c == '\n' || c == '\r'

/-- The characters from the first that is no blank. -/
def skipBlanks (cs : List Char) : List Char :=
  cs.dropWhile isBlank

/-- The value of four hexadecimal digits, with the rest. -/
def hex4 : List Char → Option (Nat × List Char)
  | a :: b :: c :: d :: rest => do
    let a ← Text.hexValue? a
    let b ← Text.hexValue? b
    let c ← Text.hexValue? c
    let d ← Text.hexValue? d
    some (((a * 16 + b) * 16 + c) * 16 + d, rest)
  | _ => none

/-- The first half of a pair of escapes. -/
def isHighSurrogate (n : Nat) : Bool := 0xD800 ≤ n && n ≤ 0xDBFF

/-- The second half of a pair of escapes. -/
def isLowSurrogate (n : Nat) : Bool := 0xDC00 ≤ n && n ≤ 0xDFFF

/-- The character with a code point. Half of a surrogate pair stands for no
    character: the program keeps it in its texts and fails where it prints one.
    The texts here are made of characters, so it becomes the replacement
    character, and what is said of printing leaves such documents out. -/
def charOf (n : Nat) : Char :=
  if 0xD800 ≤ n && n ≤ 0xDFFF then '\ufffd' else Char.ofNat n

/-- A numeric escape, read from the characters after its `u`. Four digits and
    one more character must follow. Two escapes that form a surrogate pair
    stand for one character. -/
def unicodeEscape (cs : List Char) : Except Stop (Char × List Char) := do
  let refused {α : Type} : Except Stop α := throw (.flaw .unicodeEscape (cs.length + 1))
  if cs.length ≤ 4 then refused
  else
    match hex4 cs with
    | none => refused
    | some (high, rest) =>
      match rest with
      | '\\' :: 'u' :: after =>
        if isHighSurrogate high && rest.length > 6 then
          match hex4 after with
          | none => throw (.flaw .unicodeEscape (after.length + 1))
          | some (low, final) =>
            if isLowSurrogate low then
              pure (Char.ofNat (0x10000 + (high - 0xD800) * 0x400 + (low - 0xDC00)), final)
            else pure (charOf high, rest)
        else pure (charOf high, rest)
      | _ => pure (charOf high, rest)

/-- The character that a one-letter escape stands for. -/
def shortEscape? : Char → Option Char
  | '"' => some '"'
  | '\\' => some '\\'
  | '/' => some '/'
  | 'b' => some '\x08'
  | 'f' => some '\x0c'
  | 'n' => some '\n'
  | 'r' => some '\r'
  | 't' => some '\t'
  | _ => none

/-- The characters of a string up to its closing quote. `opening` is how many
    characters were left at the opening quote. -/
def stringBody (opening : Nat) : Nat → List Char → Except Stop (List Char × List Char)
  | 0, _ => throw (.flaw .unterminated opening)
  | _, [] => throw (.flaw .unterminated opening)
  | fuel + 1, c :: rest =>
    if c == '"' then pure ([], rest)
    else if c == '\\' then
      match rest with
      | [] => throw (.flaw .unterminated opening)
      | 'u' :: after => do
        let (char, rest) ← unicodeEscape after
        let (chars, rest) ← stringBody opening fuel rest
        pure (char :: chars, rest)
      | e :: after =>
        match shortEscape? e with
        | none => throw (.flaw .escape (rest.length + 1))
        | some char => do
          let (chars, rest) ← stringBody opening fuel after
          pure (char :: chars, rest)
    else if c.toNat ≤ 0x1F then throw (.flaw .control (rest.length + 1))
    else do
      let (chars, rest) ← stringBody opening fuel rest
      pure (c :: chars, rest)

/-- A string, read from the characters after its opening quote. -/
def string (cs : List Char) : Except Stop (String × List Char) := do
  let (chars, rest) ← stringBody (cs.length + 1) (cs.length + 1) cs
  pure (String.ofList chars, rest)

/-- The digits before the point: a zero alone, or digits that do not start with
    one. -/
def integerPart : List Char → Option (List Char × List Char)
  | [] => none
  | c :: rest =>
    if c == '0' then some ([c], rest)
    else if c.isDigit then some (c :: rest.takeWhile Char.isDigit, rest.dropWhile Char.isDigit)
    else none

/-- The digits after a point, if there are any; a point without digits is left
    to the rest. -/
def fractionPart : List Char → List Char × List Char
  | '.' :: rest =>
    match rest.takeWhile Char.isDigit with
    | [] => ([], '.' :: rest)
    | digits => (digits, rest.dropWhile Char.isDigit)
  | cs => ([], cs)

/-- The exponent, if it has digits; else its letter is left to the rest. -/
def exponentPart : List Char → Option Int × List Char
  | [] => (none, [])
  | c :: rest =>
    if c == 'e' || c == 'E' then
      let (negative, after) := Numeral.splitSign rest
      match after.takeWhile Char.isDigit with
      | [] => (none, c :: rest)
      | digits =>
        let n : Int := Numeral.ofDigits (digits.filterMap Text.asciiDigit?)
        (some (if negative then -n else n), after.dropWhile Char.isDigit)
    else (none, c :: rest)

/-- The number that a literal without its sign stands for. A point or an
    exponent makes it a float. -/
def magnitude (whole fraction : List Char) (exponent : Option Int) : Except Stop Scalar :=
  let digits := (whole ++ fraction).filterMap Text.asciiDigit?
  if fraction.isEmpty && exponent.isNone then
    if whole.length > Numeral.maxDigits then throw (.longInteger whole.length)
    else pure (.int (Numeral.ofDigits digits))
  else pure (.float (.ofDecimal (Numeral.ofDigits digits) (exponent.getD 0 - fraction.length)))

/-- A scalar with its sign changed. -/
def negated : Scalar → Scalar
  | .int n => .int (-n)
  | .float x => .float x.neg
  | s => s

/-- A number. -/
def number (cs : List Char) : Except Stop (Datum × List Char) :=
  let (negative, unsigned) :=
    match cs with
    | '-' :: rest => (true, rest)
    | _ => (false, cs)
  match integerPart unsigned with
  | none => fail .value cs
  | some (whole, rest) => do
    let (fraction, rest) := fractionPart rest
    let (exponent, rest) := exponentPart rest
    let size ← magnitude whole fraction exponent
    pure (.scalar (if negative then negated size else size), rest)

/-- The words that stand for values. -/
def words : List (String × Scalar) :=
  [("null", .null), ("true", .bool true), ("false", .bool false), ("NaN", .float .nan),
   ("Infinity", .float (.infinite false)), ("-Infinity", .float (.infinite true))]

/-- A word at the start of the characters. -/
def word? (cs : List Char) : Option (Scalar × List Char) :=
  words.findSome? fun (word, scalar) =>
    if word.toList.isPrefixOf cs then some (scalar, cs.drop word.length) else none

mutual

/-- A value, read from its first character. Lists and mappings may nest as many
    levels deep as `levels` says. -/
def value : Nat → Nat → List Char → Except Stop (Datum × List Char)
  | _, 0, cs => fail .value cs
  | levels, fuel + 1, cs =>
    match cs with
    | '"' :: rest => do
      let (s, rest) ← string rest
      pure (.text s, rest)
    | '\x7b' :: rest =>
      match levels with
      | 0 => throw (.tooDeep .readingMapping)
      | levels + 1 =>
        match skipBlanks rest with
        | '\x7d' :: rest => pure (.mapping [], rest)
        | rest => do
          let (fields, rest) ← members levels fuel [] rest
          pure (.mapping fields, rest)
    | '[' :: rest =>
      match levels with
      | 0 => throw (.tooDeep .readingList)
      | levels + 1 =>
        match skipBlanks rest with
        | ']' :: rest => pure (.list [], rest)
        | rest => do
          let (items, rest) ← elements levels fuel rest
          pure (.list items, rest)
    | _ =>
      match word? cs with
      | some (scalar, rest) => pure (.scalar scalar, rest)
      | none => number cs

/-- The values of a list up to its bracket. -/
def elements : Nat → Nat → List Char → Except Stop (List Datum × List Char)
  | _, 0, cs => fail .value cs
  | levels, fuel + 1, cs => do
    let (item, rest) ← value levels fuel cs
    match skipBlanks rest with
    | ']' :: rest => pure ([item], rest)
    | ',' :: rest => do
      let (items, rest) ← elements levels fuel (skipBlanks rest)
      pure (item :: items, rest)
    | rest => fail .comma rest

/-- The fields of a mapping up to its brace, added to those read before. A
    name that comes again keeps its place and takes the later value. -/
def members : Nat → Nat → List (String × Datum) → List Char →
    Except Stop (List (String × Datum) × List Char)
  | _, 0, _, cs => fail .propertyName cs
  | levels, fuel + 1, fields, cs =>
    match cs with
    | '"' :: rest => do
      let (key, rest) ← string rest
      match skipBlanks rest with
      | ':' :: rest => do
        let (item, rest) ← value levels fuel (skipBlanks rest)
        let fields := setField key item fields
        match skipBlanks rest with
        | '\x7d' :: rest => pure (fields, rest)
        | ',' :: rest => members levels fuel fields (skipBlanks rest)
        | rest => fail .comma rest
      | rest => fail .colon rest
    | _ => fail .propertyName cs

end

/-- A whole document: one value with blanks around it. A value nests at most as
    deep as it has characters, and each level takes two calls. -/
def document (levels : Nat) (cs : List Char) : Except Stop Datum :=
  match cs with
  | '\ufeff' :: _ => fail .byteOrderMark cs
  | _ => do
    let (datum, rest) ← value levels (2 * cs.length + 2) (skipBlanks cs)
    match skipBlanks rest with
    | [] => pure datum
    | rest => fail .extra rest

/-- Why a text is no document: a flaw at a position, counted in characters from
    zero, an integer that is too long, or too many levels. -/
inductive Error where
  | malformed (flaw : Flaw) (line column position : Nat)
  | longInteger (digits : Nat)
  | tooDeep (descending : Descending)
  deriving DecidableEq, Repr

/-- A flaw with its line and column, both counted from one. -/
def Error.at (cs : List Char) (flaw : Flaw) (position : Nat) : Error :=
  let before := cs.take position
  let line := before.count '\n' + 1
  let column := (before.reverse.takeWhile (· ≠ '\n')).length + 1
  .malformed flaw line column position

/-- The wording of an error, with its place in the text. -/
def Error.message : Error → String
  | malformed flaw line column position =>
    flaw.text ++ ": line " ++ toString line ++ " column " ++ toString column ++ " (char " ++
      toString position ++ ")"
  | longInteger digits => (Cause.longInteger digits).message
  | tooDeep descending => (Cause.tooDeep descending).message

/-- Reads a document, in which lists and mappings may nest so many levels deep. -/
def parse (s : String) (levels : Nat := maxLevels) : Except Error Datum :=
  let cs := s.toList
  match document levels cs with
  | .ok datum => .ok datum
  | .error (.flaw flaw left) => .error (.at cs flaw (cs.length - left))
  | .error (.longInteger digits) => .error (.longInteger digits)
  | .error (.tooDeep descending) => .error (.tooDeep descending)

end Lineage.Json
