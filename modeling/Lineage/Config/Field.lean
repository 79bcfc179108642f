import Lineage.Datum
import Lineage.Number.Numeral
import Lineage.Text.Upper
import Lineage.World

namespace Lineage.Config

/-- What can be wrong with the value of a field. -/
inductive Problem where
  | boolParsing
  | boolType
  | intType
  | intParsing
  | intFromFloat
  | intSize
  | notFinite
  | textType
  | refused (reason : String)
  | unknown
  deriving DecidableEq, Repr

/-- The tag of a problem. -/
def Problem.tag : Problem → String
  | boolParsing => "bool_parsing"
  | boolType => "bool_type"
  | intType => "int_type"
  | intParsing => "int_parsing"
  | intFromFloat => "int_from_float"
  | intSize => "int_parsing_size"
  | notFinite => "finite_number"
  | textType => "string_type"
  | refused _ => "value_error"
  | unknown => "extra_forbidden"

/-- What a problem says about the value. -/
def Problem.message : Problem → String
  | boolParsing => "Input should be a valid boolean, unable to interpret input"
  | boolType => "Input should be a valid boolean"
  | intType => "Input should be a valid integer"
  | intParsing => "Input should be a valid integer, unable to parse string as an integer"
  | intFromFloat => "Input should be a valid integer, got a number with a fractional part"
  | intSize => "Unable to parse input string as an integer, exceeded maximum size"
  | notFinite => "Input should be a finite number"
  | textType => "Input should be a valid string"
  | refused reason => "Value error, " ++ reason
  | unknown => "Extra inputs are not permitted"

/-- The words that stand for true and false, in any case. -/
def boolOfWord? (word : String) : Option Bool :=
  match String.ofList (word.toList.map Char.toLower) with
  | "0" | "off" | "f" | "false" | "n" | "no" => some false
  | "1" | "on" | "t" | "true" | "y" | "yes" => some true
  | _ => none

/-- The boolean that an integer stands for. -/
def boolOfInt? : Int → Option Bool
  | 0 => some false
  | 1 => some true
  | _ => none

/-- Whether an integer has a place in 64 bits. -/
def fitsWord (n : Int) : Bool :=
  -Int.pow 2 63 ≤ n && n < Int.pow 2 63

/-- Whether an integral float is strictly between the bounds of 64 bits. -/
def fitsInside (n : Int) : Bool :=
  -Int.pow 2 63 < n && n < Int.pow 2 63

/-- Reads a boolean: one itself, zero and one as integer or float, or a word. -/
def readBool : Datum → Except Problem Bool
  | .scalar (.bool b) => pure b
  | .scalar (.int n) =>
    if fitsWord n then
      match boolOfInt? n with
      | some b => pure b
      | none => throw .boolParsing
    else throw .boolType
  | .scalar (.float x) =>
    match x.toInt? with
    | some n =>
      if fitsInside n then
        match boolOfInt? n with
        | some b => pure b
        | none => throw .boolParsing
      else throw .boolType
    | none => throw .boolType
  | .scalar s =>
    match s.text? with
    | some word =>
      match boolOfWord? word with
      | some b => pure b
      | none => throw .boolParsing
    | none => throw .boolType
  | _ => throw .boolType

/-- The characters without leading zeros, among which any underscores may
    stand. One character of them is left where no other digit follows. -/
def dropLeadingZeros (cs : List Char) : List Char :=
  if cs.head? = some '0' then
    let zeros := cs.takeWhile fun c => c == '0' || c == '_'
    match cs.drop zeros.length with
    | [] => zeros.drop (zeros.length - 1)
    | '.' :: rest => zeros.drop (zeros.length - 1) ++ '.' :: rest
    | rest => rest
  else cs

/-- Digits of the ten figures with single underscores between them. -/
def figures : List Char → Option (List Nat)
  | [] => none
  | [c] => (Text.asciiDigit? c).map fun d => [d]
  | c :: '_' :: rest => do
    let d ← Text.asciiDigit? c
    let ds ← figures rest
    pure (d :: ds)
  | c :: rest => do
    let d ← Text.asciiDigit? c
    let ds ← figures rest
    pure (d :: ds)

/-- The characters before a fraction of zeros, which may be absent. -/
def dropZeroFraction (cs : List Char) : Option (List Char) :=
  match cs.dropWhile (· ≠ '.') with
  | [] => some cs
  | _ :: fraction =>
    if !fraction.isEmpty && fraction.all (· == '0') then some (cs.takeWhile (· ≠ '.')) else none

/-- Reads an integer from a text. -/
def readIntText (s : String) : Except Problem Int :=
  let (negative, cs) := Numeral.splitSign (Text.stripChars Numeral.isPadding s.toList)
  match (dropZeroFraction (dropLeadingZeros cs)).bind figures with
  | none => throw .intParsing
  | some digits =>
    if digits.length > Numeral.maxDigits then throw .intSize
    else
      let n : Int := Numeral.ofDigits digits
      pure (if negative then -n else n)

/-- Reads an integer: one itself, a boolean as zero or one, a float without
    fraction, or a text. -/
def readInt : Datum → Except Problem Int
  | .scalar (.bool b) => pure (if b then 1 else 0)
  | .scalar (.int n) => pure n
  | .scalar (.float x) =>
    match x.value?, x.toInt? with
    | none, _ => throw .notFinite
    | some _, none => throw .intFromFloat
    | some _, some n => if fitsInside n then pure n else throw .intSize
  | .scalar s =>
    match s.text? with
    | some text => readIntText text
    | none => throw .intType
  | _ => throw .intType

/-- Reads a text. -/
def readText : Datum → Except Problem String
  | .scalar s =>
    match s.text? with
    | some text => pure text
    | none => throw .textType
  | _ => throw .textType

/-- Reads a depth: null for none, or an integer that is not negative. -/
def readDepth : Datum → Except Problem (Option Nat)
  | .null => pure none
  | datum => do
    let n ← readInt datum
    if n < 0 then throw (.refused ("max_depth must be >= 0, got: " ++ toString n))
    else pure (some n.toNat)

/-- The forms in which results are written. -/
inductive Format where
  | text
  | json
  deriving DecidableEq, Repr

/-- The word for a format. -/
def Format.name : Format → String
  | text => "text"
  | json => "json"

/-- Reads the name of a format, in any case. The names are of letters that are
    the lower case of no letter beyond ASCII. -/
def readFormat (datum : Datum) : Except Problem Format := do
  let word ← readText datum
  match String.ofList (word.toList.map Char.toLower) with
  | "text" => pure .text
  | "json" => pure .json
  | _ => throw (.refused ("output_format must be 'text' or 'json', got: " ++ word))

/-- The name of a severity among the levels of the log. -/
def severityName : Severity → String
  | .debug => "DEBUG"
  | .info => "INFO"
  | .warning => "WARNING"
  | .error => "ERROR"
  | .critical => "CRITICAL"

/-- The severities in rising order. -/
def severities : List Severity := [.debug, .info, .warning, .error, .critical]

/-- Reads the name of a severity, blanks around it and case aside. -/
def readSeverity (datum : Datum) : Except Problem Severity := do
  let word ← readText datum
  match severities.find? fun s => severityName s == Text.upper (Text.trim word) with
  | some severity => pure severity
  | none =>
    throw (.refused ("log_level must be one of " ++ ", ".intercalate (severities.map severityName) ++
      ", got: " ++ word))

end Lineage.Config
