import Lineage.Text.Digit
import Lineage.Text.Printable

namespace Lineage.Text

/-- A character by its number. -/
def escaped (c : Char) : String :=
  if c.toNat < 0x100 then "\\x" ++ hex 2 c.toNat
  else if c.toNat < 0x10000 then "\\u" ++ hex 4 c.toNat
  else "\\U" ++ hex 8 c.toNat

/-- One character between quotes: the quote, the backslash and the common
    controls have a short escape, other characters without a glyph are written
    by their number, and all else stands for itself. -/
def quotedChar (quote c : Char) : String :=
  if c == quote || c == '\\' then String.ofList ['\\', c]
  else if c == '\n' then "\\n"
  else if c == '\r' then "\\r"
  else if c == '\t' then "\\t"
  else if isPrintable c then c.toString
  else escaped c

/-- The quote that needs fewer escapes: single, unless the text has single
    quotes and no double one. -/
def quoteFor (s : String) : Char :=
  if s.toList.contains '\'' && !s.toList.contains '"' then '"' else '\''

/-- A text as it is shown inside messages. -/
def quoted (s : String) : String :=
  let quote := quoteFor s
  String.join (quote.toString :: s.toList.map (quotedChar quote)) ++ quote.toString

/-- A text with all that is not ASCII written by numbers. -/
def asciiOnly (s : String) : String :=
  String.join (s.toList.map fun c => if c.toNat < 0x80 then c.toString else escaped c)

end Lineage.Text
