import Lineage.Log.Clock
import Lineage.Text.Upper

namespace Lineage.Log

/-- What fills a part of a time up to its width: what is usual for it, blanks,
    nothing as far as its digits go, or zeros. -/
inductive Filler where
  | usual
  | blanks
  | bare
  | zeros
  deriving DecidableEq, Repr

/-- The filler that a character asks for. -/
def Filler.ofChar? : Char → Option Filler
  | '_' => some blanks
  | '-' => some bare
  | '0' => some zeros
  | _ => none

/-- How a pattern asks for a part of a time: the filler, upper case, the other
    case, the least width, a modifier and the letter of the part. The spelling is
    what the pattern says. -/
structure TimePart where
  filler : Filler
  upper : Bool
  otherCase : Bool
  width : Nat
  modifier : Option Char
  letter : Option Char
  spelling : List Char

/-- A piece of a pattern for times. -/
inductive TimePiece where
  | literal (c : Char)
  | part (part : TimePart)

/-- Whether a character may stand before the width. -/
def isTimeFlag (c : Char) : Bool := "_-0^#".toList.contains c

/-- Whether a character may stand before the letter. -/
def isModifier (c : Char) : Bool := c == 'E' || c == 'O'

/-- The characters of a part after its percent sign: flags, width, modifier and
    letter. -/
structure TimePart.Spelling where
  flags : List Char
  digits : List Char
  modifier : List Char
  letter : List Char

namespace TimePart.Spelling

/-- Reads the characters of a part. -/
def read (cs : List Char) : Spelling :=
  let flags := cs.takeWhile isTimeFlag
  let afterFlags := cs.drop flags.length
  let digits := afterFlags.takeWhile Char.isDigit
  let afterDigits := afterFlags.drop digits.length
  let modifier := (afterDigits.take 1).filter isModifier
  ⟨flags, digits, modifier, (afterDigits.drop modifier.length).take 1⟩

/-- All characters of a part. -/
def chars (spelling : Spelling) : List Char :=
  spelling.flags ++ spelling.digits ++ spelling.modifier ++ spelling.letter

/-- The part that is spelled. The last filler counts. -/
def part (spelling : Spelling) : TimePart where
  filler := (spelling.flags.filterMap Filler.ofChar?).getLast?.getD .usual
  upper := spelling.flags.contains '^'
  otherCase := spelling.flags.contains '#'
  width := Text.leadingNumber spelling.digits
  modifier := spelling.modifier.head?
  letter := spelling.letter.head?
  spelling := '%' :: spelling.chars

end TimePart.Spelling

/-- The pieces of a pattern for times. -/
def timePieces : List Char → List TimePiece
  | [] => []
  | '%' :: rest =>
    let spelling := TimePart.Spelling.read rest
    .part spelling.part :: timePieces (rest.drop spelling.chars.length)
  | c :: rest => .literal c :: timePieces rest
termination_by cs => cs.length
decreasing_by
  · simp only [List.length_drop, List.length_cons]
    omega
  · simp only [List.length_cons]
    omega

/-- A stretch of written time: a sign, a run of one character, and a text. -/
structure Stretch where
  sign : String := ""
  filling : Char := ' '
  count : Nat := 0
  text : String

namespace Stretch

/-- How many characters a stretch has. -/
def size (stretch : Stretch) : Nat :=
  stretch.sign.length + stretch.count + stretch.text.length

/-- The characters of a stretch. -/
def render (stretch : Stretch) : String :=
  stretch.sign.pushn stretch.filling stretch.count ++ stretch.text

end Stretch

/-- The days of the week from Sunday on. -/
def weekdayNames : List String :=
  ["Sunday", "Monday", "Tuesday", "Wednesday", "Thursday", "Friday", "Saturday"]

/-- The months of the year. -/
def monthNames : List String :=
  ["January", "February", "March", "April", "May", "June", "July", "August", "September",
   "October", "November", "December"]

/-- The first three letters of a name. -/
def abbreviated (name : String) : String := String.ofList (name.toList.take 3)

/-- The name of the day of the week. -/
def Moment.weekdayName (moment : Moment) : String := weekdayNames[moment.weekday]?.getD ""

/-- The name of the month. -/
def Moment.monthName (moment : Moment) : String := monthNames[moment.date.month - 1]?.getD ""

/-- The hour on a clock of twelve hours. -/
def twelveHour (hour : Nat) : Nat :=
  if hour % 12 == 0 then 12 else hour % 12

/-- A single character in upper case; one with a longer form is kept. -/
def upperSimple (c : Char) : Char :=
  match Text.upperChar c with
  | [upper] => upper
  | _ => c

/-- What a letter stands for in a time: a number with its least count of digits,
    blank padded or not, a name, a word that has a lower case form, the name or
    the distance of the time zone, a fixed character, or a whole pattern. -/
inductive TimeItem where
  | number (digits : Nat) (n : Int) (blankPadded : Bool)
  | name (text : String)
  | half (text : String)
  | zoneName
  | zoneOffset
  | text (text : String)
  | pattern (pattern : String)

/-- A number padded with zeros. -/
def TimeItem.digits (count : Nat) (n : Int) : TimeItem := .number count n false

/-- What a letter stands for, if it has a meaning. -/
def Moment.item? (moment : Moment) : Char → Option TimeItem
  | 'Y' => some (.digits 1 moment.date.year)
  | 'C' => some (.digits 1 (moment.date.year.fdiv 100))
  | 'y' => some (.digits 2 (moment.date.year.fmod 100))
  | 'G' => some (.digits 1 moment.weekYear)
  | 'g' => some (.digits 2 (moment.weekYear.fmod 100))
  | 'V' => some (.digits 2 moment.week)
  | 'm' => some (.digits 2 moment.date.month)
  | 'd' => some (.digits 2 moment.date.day)
  | 'e' => some (.number 2 moment.date.day true)
  | 'H' => some (.digits 2 moment.hour)
  | 'k' => some (.number 2 moment.hour true)
  | 'I' => some (.digits 2 (twelveHour moment.hour))
  | 'l' => some (.number 2 (twelveHour moment.hour) true)
  | 'M' => some (.digits 2 (moment.secondOfDay / 60 % 60 : Nat))
  | 'S' => some (.digits 2 (moment.secondOfDay % 60 : Nat))
  | 'j' => some (.digits 3 moment.date.dayOfYear)
  | 'u' => some (.digits 1 (moment.dayAfterMonday + 1 : Nat))
  | 'w' => some (.digits 1 moment.weekday)
  | 'U' => some (.digits 2 ((moment.date.dayOfYear + 6 - moment.weekday) / 7 : Nat))
  | 'W' => some (.digits 2 ((moment.date.dayOfYear + 6 - moment.dayAfterMonday) / 7 : Nat))
  | 's' => some (.text (toString moment.seconds))
  | 'p' => some (.half (if moment.hour < 12 then "AM" else "PM"))
  | 'P' => some (.text (if moment.hour < 12 then "am" else "pm"))
  | 'a' => some (.name (abbreviated moment.weekdayName))
  | 'A' => some (.name moment.weekdayName)
  | 'b' | 'h' => some (.name (abbreviated moment.monthName))
  | 'B' => some (.name moment.monthName)
  | 'Z' => some .zoneName
  | 'z' => some .zoneOffset
  | 'n' => some (.text "\n")
  | 't' => some (.text "\t")
  | '%' => some (.text "%")
  | 'F' => some (.pattern "%Y-%m-%d")
  | 'T' | 'X' => some (.pattern "%H:%M:%S")
  | 'R' => some (.pattern "%H:%M")
  | 'D' | 'x' => some (.pattern "%m/%d/%y")
  | 'r' => some (.pattern "%I:%M:%S %p")
  | 'c' => some (.pattern "%a %b %e %H:%M:%S %Y")
  | _ => none

/-- Whether a letter goes with a modifier. -/
def allowsModifier (letter modifier : Char) : Bool :=
  let refused :=
    if "%aADF".toList.contains letter then ['E', 'O']
    else if "bhBdeHIkljMmSUVgGWw".toList.contains letter then ['E']
    else if "cxXY".toList.contains letter then ['O']
    else []
  !refused.contains modifier

namespace TimePart

/-- What a part stands for, if its letter has a meaning that goes with its
    modifier. -/
def item? (moment : Moment) (part : TimePart) : Option TimeItem :=
  match part.letter with
  | none => none
  | some letter =>
    if part.modifier.all (allowsModifier letter) then moment.item? letter else none

/-- A text as wide as the part asks for. -/
def padded (part : TimePart) (text : String) : Stretch where
  filling := if part.filler = .zeros then '0' else ' '
  count := part.width - text.length
  text

/-- The text in upper case if the part asks for it. -/
def cased (part : TimePart) (text : String) : String :=
  if part.upper then text.map upperSimple else text

/-- The text of a name, for which the other case is upper case. -/
def casedName (part : TimePart) (text : String) : String :=
  if part.otherCase then text.map upperSimple else part.cased text

/-- What a part without a meaning leaves in its place: its own spelling, from the
    last percent sign on. The short names of months have their case changed even
    then. -/
def leftover (part : TimePart) : String :=
  match part.letter with
  | some '%' => "%"
  | some 'b' | some 'h' => part.casedName (String.ofList part.spelling)
  | _ => part.cased (String.ofList part.spelling)

/-- A number of `digits` at least, or as many as the part is wide. A sign comes
    before the zeros. -/
def number (part : TimePart) (digits : Nat) (n : Int) (blankPadded : Bool) : Stretch :=
  let shown := toString n
  let missing := max digits part.width - shown.length
  match part.filler, blankPadded with
  | .bare, _ => part.padded shown
  | .blanks, _ | .usual, true => { count := missing, text := shown }
  | .zeros, _ | .usual, false =>
    { sign := if n < 0 then "-" else ""
      filling := '0'
      count := missing
      text := toString n.natAbs }

/-- A stretch for each of the items that are no pattern. -/
def plain (part : TimePart) : TimeItem → List Stretch
  | .number digits n blankPadded => [part.number digits n blankPadded]
  | .name text => [part.padded (part.casedName text)]
  | .half text => [part.padded (if part.otherCase then text.map Char.toLower else text)]
  | .zoneName => [if part.filler = .bare then { text := "UTC" } else part.padded "UTC"]
  | .zoneOffset => [part.padded "+", part.number 4 0 false]
  | .text text => [part.padded text]
  | .pattern _ => []

/-- A part that stands in no other: patterns within it have none in
    themselves. -/
def simple (moment : Moment) (part : TimePart) : List Stretch :=
  match part.item? moment with
  | some item => part.plain item
  | none => [part.padded part.leftover]

/-- The written parts of a pattern. -/
def within (moment : Moment) (pattern : String) : String :=
  String.join ((timePieces pattern.toList).flatMap fun
    | .literal c => [c.toString]
    | .part part => (part.simple moment).map Stretch.render)

/-- A part of a moment in writing. -/
def stretches (moment : Moment) (part : TimePart) : List Stretch :=
  match part.item? moment with
  | some (.pattern pattern) => [part.padded (part.cased (within moment pattern))]
  | _ => part.simple moment

end TimePart

/-- A piece of a pattern in writing. -/
def TimePiece.stretches (moment : Moment) : TimePiece → List Stretch
  | .literal c => [{ text := c.toString }]
  | .part asked => asked.stretches moment

/-- The characters that a time may have, for a pattern of so many: the least
    power of two that is 1024 at least and no less than 256 for each. -/
def timeRoom (length : Nat) : Nat :=
  1024 * ((length + 3) / 4).nextPowerOfTwo

/-- A moment in writing, as a pattern of percent letters asks for it. One that
    needs too much room is empty. -/
def Moment.write (moment : Moment) (pattern : String) : String :=
  let stretches := (timePieces pattern.toList).flatMap (·.stretches moment)
  let size := stretches.foldl (fun total stretch => total + stretch.size) 0
  if size < timeRoom pattern.length then String.join (stretches.map Stretch.render) else ""

end Lineage.Log
