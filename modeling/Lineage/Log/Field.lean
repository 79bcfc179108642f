import Lineage.Log.Flaw
import Lineage.Log.Pattern
import Lineage.Number.Rounded

namespace Lineage.Log

/-- What a field holds: a scalar, or something with parts, of which only the
    kind and the wording count. -/
inductive Field where
  | scalar (s : Scalar)
  | compound (kind : Kind) (shown : String)

namespace Field

/-- A text. -/
abbrev text (s : String) : Field := .scalar (.text s)

/-- The kind of a field. -/
def kind : Field → Kind
  | scalar s => s.kind
  | compound kind _ => kind

/-- A field as messages show it. -/
def shown : Field → String
  | scalar s => s.shown
  | compound _ shown => shown

/-- A field in running text. -/
def display : Field → String
  | scalar s => s.display
  | compound _ shown => shown

/-- The integer of a field that holds one. Truth values count as such. -/
def integer? : Field → Option Int
  | scalar (.int n) => some n
  | scalar (.bool b) => some (if b then 1 else 0)
  | _ => none

/-- The integer that a field stands for; a fraction is dropped. -/
def truncated (letter : Char) : Field → Except Flaw Int
  | scalar (.float .nan) => throw .integerOfNan
  | scalar (.float x) =>
    match x.truncated? with
    | some n => pure n
    | none => throw .integerOfInfinity
  | field =>
    match field.integer? with
    | some n => pure n
    | none => throw (.notReal letter field.kind)

/-- The integer that a field holds. -/
def integer (letter : Char) (field : Field) : Except Flaw Int :=
  match field.integer? with
  | some n => pure n
  | none => throw (.notInteger letter field.kind)

/-- The number of double precision that a field stands for. -/
def float : Field → Except Flaw Binary64
  | scalar (.float x) => pure x
  | field =>
    match field.integer? with
    | some n =>
      match Binary64.ofInt n with
      | .infinite _ => throw .floatTooLarge
      | x => pure x
    | none => throw (.notFloat field.kind)

/-- The character that a field stands for, itself or by its number. -/
def character (field : Field) : Except Flaw Char :=
  match field with
  | scalar (.text s) =>
    match s.toList with
    | [c] => pure c
    | _ => throw .notCharacter
  | field =>
    match field.integer? with
    | some n =>
      if 0 ≤ n && n < 0x110000 then pure (Char.ofNat n.toNat) else throw .characterOutOfRange
    | none => throw .notCharacter

end Field

/-- How an argument is written once width and precision are known. -/
structure Shape where
  flags : Flags
  width : Nat
  precision : Option Nat

/-- The characters of an argument. A number has a mark before its digits: its
    sign, and what tells the base. -/
inductive Written where
  | text (body : String)
  | number (mark body : String)

/-- A number in upper case, its mark as well. -/
def Written.upper : Written → Written
  | text body => .text body
  | number mark body => .number (mark.map Char.toUpper) (body.map Char.toUpper)

/-- The most characters that a width may ask for. -/
def maxWidth : Nat := Nat.pow 2 36

namespace Shape

/-- The mark of a number's sign. -/
def sign (shape : Shape) (negative : Bool) : String :=
  if negative then "-"
  else if shape.flags.signed then "+"
  else if shape.flags.blank then " "
  else ""

/-- The characters of an argument made as wide as the shape asks for. Zeros come
    between the mark of a number and its digits, blanks on either side. -/
def justify (shape : Shape) (written : Written) : Except Flaw String :=
  let (mark, body, zeros) :=
    match written with
    | .text body => ("", body, false)
    | .number mark body => (mark, body, shape.flags.zeros)
  let missing := shape.width - mark.length - body.length
  if missing > maxWidth then throw .noRoom
  else if shape.flags.left then pure ((mark ++ body).pushn ' ' missing)
  else if zeros then pure (mark.pushn '0' missing ++ body)
  else pure ("".pushn ' ' missing ++ mark ++ body)

/-- A text cut to the precision. -/
def cut (shape : Shape) (text : String) : Written :=
  match shape.precision with
  | some count => .text (String.ofList (text.toList.take count))
  | none => .text text

/-- The most digits that may be asked of an integer. -/
def maxDigits : Nat := Nat.pow 2 31 - 4

/-- An integer in a base, with as many digits as the precision at least. The
    other form has a mark of the base. -/
def integer (shape : Shape) (base : Nat) (baseMark : String) (n : Int) : Except Flaw Written :=
  let digits := Nat.toDigits base n.natAbs
  let count := shape.precision.getD 0
  if count > maxDigits then throw .digitsTooMany
  else
    let mark := shape.sign (n < 0) ++ (if shape.flags.alternate then baseMark else "")
    pure (.number mark ("".pushn '0' (count - digits.length) ++ String.ofList digits))

/-- A finite number that is not negative, in the form of a letter. -/
def decimal (shape : Shape) (letter : Char) (value : Dyadic) : String :=
  let precision := shape.precision.getD 6
  match letter.toLower with
  | 'e' => Binary64.scientific shape.flags.alternate precision value
  | 'f' => Binary64.fixed shape.flags.alternate precision value
  | _ => Binary64.general shape.flags.alternate precision value

/-- A number of double precision in the form of a letter; an upper case letter
    asks for upper case. -/
def float (shape : Shape) (letter : Char) (x : Binary64) : Written :=
  let (negative, body) :=
    match x with
    | .nan => (false, "nan")
    | .infinite negative => (negative, "inf")
    | .negZero => (true, shape.decimal letter 0)
    | .finite value =>
      if value < 0 then (true, shape.decimal letter (-value))
      else (false, shape.decimal letter value)
  .number (shape.sign negative) (if letter.isUpper then body.map Char.toUpper else body)

/-- A field in the form of a letter, if the letter has one. -/
def write? (shape : Shape) (letter : Char) (field : Field) : Option (Except Flaw Written) :=
  match letter with
  | 's' => some (pure (shape.cut field.display))
  | 'r' => some (pure (shape.cut field.shown))
  | 'a' => some (pure (shape.cut (Text.asciiOnly field.shown)))
  | 'd' | 'i' | 'u' => some ((field.truncated letter).bind (shape.integer 10 ""))
  | 'o' => some ((field.integer letter).bind (shape.integer 8 "0o"))
  | 'x' => some ((field.integer letter).bind (shape.integer 16 "0x"))
  | 'X' => some (((field.integer letter).bind (shape.integer 16 "0x")).map Written.upper)
  | 'e' | 'E' | 'f' | 'F' | 'g' | 'G' => some (field.float.map (shape.float letter))
  | 'c' => some (field.character.map fun c => .text c.toString)
  | _ => none

end Shape

/-- Filling in a pattern: the argument at hand is there until it is taken. -/
abbrev Filling := StateT (Option Field) (Except Flaw)

namespace Filling

/-- Takes the argument at hand. -/
def take : Filling Field := fun argument =>
  match argument with
  | some field => pure (field, none)
  | none => throw .argumentSpent

/-- Makes a field the argument at hand. -/
def select (fields : List (String × Field)) : Option String → Filling Unit
  | none => pure ()
  | some name =>
    match fields.lookup name with
    | some field => set (some field)
    | none => throw (.noSuchField name)

/-- A width or a precision below a bound. Whether it stands in the pattern or is
    the argument, one beyond the bound has a flaw of its own. -/
def extent (bound : Nat) (wide outOfRange : Flaw) : Extent → Filling Int
  | .fixed n => if n < bound then pure n else throw wide
  | .argument => do
    match (← take).integer? with
    | none => throw .extentNotInteger
    | some n => if -bound ≤ n && n < bound then pure n else throw outOfRange

/-- The shape of a conversion. A width below zero flushes left. -/
def shape (conversion : Conversion) : Filling Shape := do
  let width ←
    match conversion.width with
    | some width => extent (Nat.pow 2 63) .wideWidth .widthOutOfRange width
    | none => pure 0
  let precision ←
    match conversion.precision with
    | some precision => some <$> extent (Nat.pow 2 31) .widePrecision .precisionOutOfRange precision
    | none => pure none
  let flags := conversion.flags
  pure
    { flags := { flags with left := flags.left || width < 0 }
      width := width.natAbs
      precision := precision.map Int.toNat }

/-- What a conversion writes. -/
def conversion (fields : List (String × Field)) (conversion : Conversion) : Filling String := do
  select fields conversion.name
  let shape ← shape conversion
  match conversion.letter with
  | none => throw .unfinished
  | some letter =>
    match shape.write? letter (← take) with
    | none => throw (.unsupported letter conversion.position)
    | some written => shape.justify (← written)

/-- What a piece of a pattern writes. -/
def piece (fields : List (String × Field)) : Piece → Filling String
  | .literal c => pure c.toString
  | .conversion asked => conversion fields asked
  | .unclosed => throw .unclosedName

end Filling

/-- The fields together, as one argument. -/
def Field.all (fields : List (String × Field)) : Field :=
  .compound .mapping
    (Datum.bracketed "\x7b" "\x7d"
      (fields.map fun (name, field) => Text.quoted name ++ ": " ++ field.shown))

/-- The pattern with its places filled in from left to right. Before a field is
    named, all of them are the argument at hand. -/
def fill (fields : List (String × Field)) (pattern : String) : Except Flaw String := do
  let (parts, _) ← (pieces pattern).mapM (Filling.piece fields) (some (.all fields))
  pure (String.join parts)

end Lineage.Log
