import Lineage.Log.Field
import Lineage.Log.Level
import Lineage.Log.TimePattern

namespace Lineage.Log

/-- A message on its way to the log: the name of the logger, the level, what is
    said, and the time in seconds. A null importance follows from the level. -/
structure Record where
  logger : String := ""
  level : Int
  message : Field
  time : Scalar := .int 0
  importance : Field := .scalar .null

/-- The importance that a line shows. -/
def Record.shownImportance (record : Record) : Field :=
  match record.importance with
  | .scalar .null => .scalar (.int (importanceOf (levelName record.level)))
  | importance => importance

/-- The fields of a record by their names, with the time in writing if it is
    needed. -/
def Record.fields (record : Record) (written : Option String) : List (String × Field) :=
  [("name", .text record.logger),
   ("msg", record.message),
   ("args", .compound .tuple "()"),
   ("levelname", .text (levelName record.level)),
   ("levelno", .scalar (.int record.level)),
   ("exc_info", .scalar .null),
   ("exc_text", .scalar .null),
   ("stack_info", .scalar .null),
   ("created", .scalar record.time),
   ("msecs", .scalar (.float (.finite 0))),
   ("threadName", .text "MainThread"),
   ("processName", .text "MainProcess"),
   ("importance", record.shownImportance),
   ("message", .text record.message.display)] ++
    (written.map fun time => ("asctime", Field.text time)).toList

/-- How lines are written: a pattern of named fields, and one for the time. If
    there is none for the time, it is written to the millisecond. -/
structure Formatter where
  pattern : String
  datePattern : Option String
  deriving DecidableEq

/-- The usual form of a time. -/
def usualDatePattern : String := "%Y-%m-%d %H:%M:%S"

/-- Time, level, importance and message between bars. -/
def unified : Formatter where
  pattern := "%(asctime)s | %(levelname)-8s | %(importance)s | %(message)s"
  datePattern := some usualDatePattern

/-- Whether a word stands anywhere in the characters. -/
def mentions (word : List Char) : List Char → Bool
  | [] => word.isEmpty
  | c :: rest => word.isPrefixOf (c :: rest) || mentions word rest

namespace Formatter

/-- Whether lines have the time in them. -/
def usesTime (formatter : Formatter) : Bool :=
  mentions "%(asctime)".toList formatter.pattern.toList

/-- A time in writing. Moments are whole seconds. -/
def writeTime (formatter : Formatter) (time : Scalar) : Except Flaw String := do
  let moment ← Moment.ofTime time
  match formatter.datePattern with
  | some pattern =>
    if pattern.toList.contains '\x00' then throw .nullInPattern else pure (moment.write pattern)
  | none => pure (moment.write usualDatePattern ++ ",000")

/-- The line of a record: `UnifiedFormatter.format`. -/
def format (formatter : Formatter) (record : Record) : Except Flaw String := do
  let written ←
    if formatter.usesTime then some <$> formatter.writeTime record.time else pure none
  fill (record.fields written) formatter.pattern

/-- A formatter with the given patterns for lines and times. A pattern that is
    absent or empty stands for a plain one, and one without any field is
    refused. -/
def of (pattern datePattern : Option String) : Except Flaw Formatter :=
  let given := fun s : String => !s.isEmpty
  let formatter : Formatter :=
    ⟨(pattern.filter given).getD "%(message)s", datePattern.filter given⟩
  if hasField formatter.pattern.toList then pure formatter
  else throw (.fieldless formatter.pattern)

/-- A formatter with the patterns that are given, and else those of the unified
    one: `create_unified_formatter`. -/
def ofGiven : List (Option String) → Except Flaw Formatter
  | [] => pure unified
  | [pattern] => Formatter.of pattern unified.datePattern
  | pattern :: datePattern :: _ => Formatter.of pattern datePattern

end Formatter

/-- The lines, written at one time, of the messages in a journal that reach a
    level, oldest first. -/
def linesFrom (time : Scalar) (level : Int) (journal : List Entry) : List String :=
  (messages journal).filterMap fun (severity, message) =>
    if level ≤ severity.level then
      (unified.format { level := severity.level, message := .text message, time }).toOption
    else none

end Lineage.Log
