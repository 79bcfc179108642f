import Lineage.Fault

namespace Lineage.Log

/-- What can be wrong with a pattern, with the fields it is filled from, or with
    a time. -/
inductive Flaw where
  | fieldless (pattern : String)
  | noSuchField (name : String)
  | unclosedName
  | unfinished
  | unsupported (letter : Char) (position : Nat)
  | wideWidth
  | widePrecision
  | extentNotInteger
  | widthOutOfRange
  | precisionOutOfRange
  | argumentSpent
  | notReal (letter : Char) (kind : Kind)
  | notInteger (letter : Char) (kind : Kind)
  | notFloat (kind : Kind)
  | notCharacter
  | characterOutOfRange
  | integerOfNan
  | integerOfInfinity
  | floatTooLarge
  | digitsTooMany
  | nanTime
  | timeOutOfRange
  | dateOutOfRange
  | yearTooLarge
  | nullInPattern
  | noRoom
  deriving DecidableEq, Repr

namespace Flaw

/-- The sort of failure that a flaw brings about. -/
def category : Flaw → Category
  | extentNotInteger | argumentSpent | notReal .. | notInteger .. | notFloat _ | notCharacter =>
    .type
  | widthOutOfRange | precisionOutOfRange | characterOutOfRange | integerOfInfinity
  | floatTooLarge | digitsTooMany | timeOutOfRange | yearTooLarge => .overflow
  | dateOutOfRange => .system
  | noRoom => .memory
  | _ => .value

/-- A letter as a message shows it. -/
def glyph (letter : Char) : Char :=
  if 31 ≤ letter.toNat && letter.toNat < 127 then letter else '?'

/-- The wording of a flaw. -/
def message : Flaw → String
  | fieldless pattern => "Invalid format '" ++ pattern ++ "' for '%' style"
  | noSuchField name => "Formatting field not found in record: " ++ Text.quoted name
  | unclosedName => "incomplete format key"
  | unfinished => "incomplete format"
  | unsupported letter position =>
    "unsupported format character '" ++ (glyph letter).toString ++ "' (0x" ++
      Text.hex 1 letter.toNat ++ ") at index " ++ toString position
  | wideWidth => "width too big"
  | widePrecision => "precision too big"
  | extentNotInteger => "* wants int"
  | widthOutOfRange => "Python int too large to convert to C ssize_t"
  | precisionOutOfRange => "Python int too large to convert to C int"
  | argumentSpent => "not enough arguments for format string"
  | notReal letter kind =>
    "%" ++ letter.toString ++ " format: a real number is required, not " ++ kind.name
  | notInteger letter kind =>
    "%" ++ letter.toString ++ " format: an integer is required, not " ++ kind.name
  | notFloat kind => "must be real number, not " ++ kind.name
  | notCharacter => "%c requires int or char"
  | characterOutOfRange => "%c arg not in range(0x110000)"
  | integerOfNan => "cannot convert float NaN to integer"
  | integerOfInfinity => "cannot convert float infinity to integer"
  | floatTooLarge => "int too large to convert to float"
  | digitsTooMany => "precision too large"
  | nanTime => "Invalid value NaN (not a number)"
  | timeOutOfRange => "timestamp out of range for platform time_t"
  | dateOutOfRange => "[Errno 75] Value too large for defined data type"
  | yearTooLarge => "signed integer is greater than maximum"
  | nullInPattern => "embedded null character"
  | noRoom => ""

/-- The failure that a flaw brings about. -/
def fault (flaw : Flaw) : Fault := .of (.raised flaw.category flaw.message)

end Flaw

end Lineage.Log
