import Lineage.Log.Flaw
import Lineage.Number.Rounded

namespace Lineage.Log

/-- A day of the calendar. -/
structure Date where
  year : Int
  month : Nat
  day : Nat

/-- The date a number of days after the first of January 1970. Years are
    counted from March within eras of 400 years. -/
def Date.ofDays (days : Int) : Date :=
  let shifted := days + 719468
  let era := shifted.fdiv 146097
  let dayOfEra := (shifted - era * 146097).toNat
  let yearOfEra := (dayOfEra - dayOfEra / 1460 + dayOfEra / 36524 - dayOfEra / 146096) / 365
  let dayOfYear := dayOfEra - (365 * yearOfEra + yearOfEra / 4 - yearOfEra / 100)
  let shiftedMonth := (5 * dayOfYear + 2) / 153
  let day := dayOfYear - (153 * shiftedMonth + 2) / 5 + 1
  let month := if shiftedMonth < 10 then shiftedMonth + 3 else shiftedMonth - 9
  let year := yearOfEra + era * 400
  ⟨if month ≤ 2 then year + 1 else year, month, day⟩

/-- The days before a month of a year that is not a leap year. -/
def daysBefore : List Nat := [0, 31, 59, 90, 120, 151, 181, 212, 243, 273, 304, 334]

/-- Every fourth year, except three centuries in four. -/
def isLeap (year : Int) : Bool :=
  year % 4 == 0 && (year % 100 != 0 || year % 400 == 0)

/-- The number of a day in its year, from one. -/
def Date.dayOfYear (date : Date) : Nat :=
  daysBefore[date.month - 1]?.getD 0 + date.day +
    (if date.month > 2 && isLeap date.year then 1 else 0)

/-- A moment in universal time. -/
structure Moment where
  seconds : Int

namespace Moment

/-- The days before the day of a moment, counted from 1970. -/
def days (moment : Moment) : Int := moment.seconds.fdiv 86400

/-- The date of a moment. -/
def date (moment : Moment) : Date := .ofDays moment.days

/-- The seconds since midnight. -/
def secondOfDay (moment : Moment) : Nat := (moment.seconds.fmod 86400).toNat

/-- The hours since midnight. -/
def hour (moment : Moment) : Nat := moment.secondOfDay / 3600

/-- The day of the week, Sunday being zero. -/
def weekday (moment : Moment) : Nat := ((moment.days + 4).fmod 7).toNat

/-- The day of the week, Monday being zero. -/
def dayAfterMonday (moment : Moment) : Nat := (moment.weekday + 6) % 7

/-- The Thursday of the week that a moment is in. Weeks start on Monday and
    belong to the year of their Thursday. -/
def thursday (moment : Moment) : Date :=
  .ofDays (moment.days - moment.dayAfterMonday + 3)

/-- The year that a week belongs to. Years have four bytes. -/
def weekYear (moment : Moment) : Int := moment.thursday.year.bmod (Nat.pow 2 32)

/-- The number of the week in the year that it belongs to. -/
def week (moment : Moment) : Nat := (moment.thursday.dayOfYear - 1) / 7 + 1

/-- The first second and the last one whose years, counted from 1900, have
    four bytes. -/
def datedSeconds : Int × Int := (-67768040609740800, 67768036191676799)

/-- The last second of the year `2 ^ 31 - 1`. -/
def lastWritten : Int := 67767976233532799

/-- The whole seconds of a time; a fraction is dropped. They have eight
    bytes. -/
def wholeSeconds : Scalar → Except Flaw Int
  | .float .nan => throw .nanTime
  | .float x =>
    match x.floor? with
    | some n => bounded n
    | none => throw .timeOutOfRange
  | .int n => bounded n
  | .bool b => pure (if b then 1 else 0)
  | _ => pure 0
where
  /-- The seconds themselves if there are not too many. -/
  bounded (n : Int) : Except Flaw Int :=
    if -Int.pow 2 63 ≤ n && n < Int.pow 2 63 then pure n else throw .timeOutOfRange

/-- The moment of a time in seconds, if its date can be written. -/
def ofTime (time : Scalar) : Except Flaw Moment := do
  let seconds ← wholeSeconds time
  if seconds < datedSeconds.1 || datedSeconds.2 < seconds then throw .dateOutOfRange
  else if lastWritten < seconds then throw .yearTooLarge
  else pure ⟨seconds⟩

end Moment

end Lineage.Log
