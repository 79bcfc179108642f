import Lineage.Number.Binary64
import Lineage.Text.Digit
import Lineage.Text.Space

namespace Lineage.Numeral

/-- The most digits an integer may be written with, leading zeros included. -/
def maxDigits : Nat := 4300

mutual

/-- The digits at the start of the text, of any script, with what follows
    them. Single underscores may stand between two digits. -/
def digitRun : List Char → List Nat × List Char
  | [] => ([], [])
  | c :: rest =>
    match Text.digitValue? c with
    | some d =>
      let (ds, after) := digitRunTail rest
      (d :: ds, after)
    | none => ([], c :: rest)

/-- The digits that continue a run. -/
def digitRunTail : List Char → List Nat × List Char
  | [] => ([], [])
  | '_' :: c :: rest =>
    match Text.digitValue? c with
    | some d =>
      let (ds, after) := digitRunTail rest
      (d :: ds, after)
    | none => ([], '_' :: c :: rest)
  | c :: rest =>
    match Text.digitValue? c with
    | some d =>
      let (ds, after) := digitRunTail rest
      (d :: ds, after)
    | none => ([], c :: rest)

end

/-- The number that decimal digits denote. -/
def ofDigits (digits : List Nat) : Nat :=
  digits.foldl (fun n d => 10 * n + d) 0

/-- A sign at the start of the text: whether it is a minus, and the rest. -/
def splitSign : List Char → Bool × List Char
  | '-' :: rest => (true, rest)
  | '+' :: rest => (false, rest)
  | cs => (false, cs)

/-- The white space allowed around a numeral: all but the four separators of
    files, groups, records and units. -/
def isPadding (c : Char) : Bool :=
  Text.isSpace c && !(0x1C ≤ c.toNat && c.toNat ≤ 0x1F)

/-- Reads an integer: an optional sign and at most `maxDigits` digits, with
    white space around them. -/
def readInt? (s : String) : Option Int :=
  let (negative, cs) := splitSign (Text.stripChars isPadding s.toList)
  let (digits, rest) := digitRun cs
  if digits.isEmpty || !rest.isEmpty || digits.length > maxDigits then none
  else
    let n : Int := ofDigits digits
    some (if negative then -n else n)

/-- The exponent part of a decimal numeral: `e`, an optional sign, digits.
    Its absence is the exponent zero; anything else after it is refused. -/
def readExponent? : List Char → Option Int
  | [] => some 0
  | c :: rest =>
    if c == 'e' || c == 'E' then
      let (negative, cs) := splitSign rest
      let (digits, after) := digitRun cs
      if digits.isEmpty || !after.isEmpty then none
      else
        let n : Int := ofDigits digits
        some (if negative then -n else n)
    else none

/-- Reads an unsigned decimal numeral: digits with a point before, between or
    after them, and an optional exponent. -/
def readDecimal? (cs : List Char) : Option Binary64 :=
  let (whole, rest) := digitRun cs
  let (fraction, rest) :=
    match rest with
    | '.' :: after => digitRun after
    | _ => ([], rest)
  if whole.isEmpty && fraction.isEmpty then none
  else
    (readExponent? rest).map fun exponent =>
      Binary64.ofDecimal (ofDigits (whole ++ fraction)) (exponent - fraction.length)

/-- The numbers written as words. -/
def readWord? (cs : List Char) : Option Binary64 :=
  match String.ofList (cs.map Char.toLower) with
  | "inf" | "infinity" => some (.infinite false)
  | "nan" => some .nan
  | _ => none

/-- Reads a number of double precision, with white space around it. -/
def readFloat? (s : String) : Option Binary64 :=
  let (negative, cs) := splitSign (Text.stripChars isPadding s.toList)
  let magnitude := (readWord? cs).or (readDecimal? cs)
  magnitude.map fun x => if negative then x.neg else x

end Lineage.Numeral
