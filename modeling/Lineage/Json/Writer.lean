import Lineage.Datum
import Lineage.Text.Digit

namespace Lineage.Json

/-- How texts are written: with every character beyond ASCII escaped, or with
    those that must be. -/
inductive Charset where
  | ascii
  | full
  deriving DecidableEq, Repr

/-- A numeric escape; characters beyond four digits take two of them. -/
def numericEscape (code : Nat) : String :=
  if code < 0x10000 then "\\u" ++ Text.hex 4 code
  else
    let offset := code - 0x10000
    "\\u" ++ Text.hex 4 (0xD800 + offset / 0x400) ++ "\\u" ++ Text.hex 4 (0xDC00 + offset % 0x400)

/-- A character between quotes. -/
def writeChar (charset : Charset) (c : Char) : String :=
  if c == '"' then "\\\""
  else if c == '\\' then "\\\\"
  else if c == '\n' then "\\n"
  else if c == '\r' then "\\r"
  else if c == '\t' then "\\t"
  else if c == '\x08' then "\\b"
  else if c == '\x0c' then "\\f"
  else if c.toNat < 0x20 then numericEscape c.toNat
  else if charset = .ascii && c.toNat > 0x7E then numericEscape c.toNat
  else c.toString

/-- A text between quotes. -/
def writeText (charset : Charset) (s : String) : String :=
  "\"" ++ String.join (s.toList.map (writeChar charset)) ++ "\""

/-- A number. The three that are not finite have names. -/
def writeFloat : Binary64 → String
  | .nan => "NaN"
  | .infinite negative => if negative then "-Infinity" else "Infinity"
  | x => x.render

/-- A scalar on its own. -/
def writeScalar (charset : Charset) : Scalar → String
  | .null => "null"
  | .bool b => if b then "true" else "false"
  | .int n => toString n
  | .float x => writeFloat x
  | .text s => writeText charset s
  | .action a => writeText charset a.text

/-- The text of a scalar that serves as a key. -/
def keyText : Scalar → String
  | .text s => s
  | .action a => a.text
  | s => writeScalar .full s

/-- The start of a line at a depth of two blanks to a level. -/
def newline (depth : Nat) : String :=
  "\n" ++ String.ofList (List.replicate (2 * depth) ' ')

/-- Parts on lines of their own between brackets; nothing between them if there
    are no parts. -/
def enclosed (opening closing : String) (depth : Nat) (parts : List String) : String :=
  if parts.isEmpty then opening ++ closing
  else
    opening ++ newline (depth + 1) ++ ("," ++ newline (depth + 1)).intercalate parts ++
      newline depth ++ closing

mutual

/-- A document, indented from a depth on. -/
def write (charset : Charset) (depth : Nat) : Datum → String
  | .scalar s => writeScalar charset s
  | .list items => enclosed "[" "]" depth (writeItems charset (depth + 1) items)
  | .tuple items => enclosed "[" "]" depth (writeItems charset (depth + 1) items)
  | .mapping fields => enclosed "\x7b" "\x7d" depth (writeFields charset (depth + 1) fields)

/-- The items of a sequence, each at the depth. -/
def writeItems (charset : Charset) (depth : Nat) : List Datum → List String
  | [] => []
  | item :: rest => write charset depth item :: writeItems charset depth rest

/-- The fields of a mapping, each at the depth. -/
def writeFields (charset : Charset) (depth : Nat) : List (String × Datum) → List String
  | [] => []
  | (key, value) :: rest =>
    (writeText charset key ++ ": " ++ write charset depth value) :: writeFields charset depth rest

end

end Lineage.Json
