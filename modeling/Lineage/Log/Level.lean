import Lineage.Text.Space
import Lineage.Text.Upper
import Lineage.World

namespace Lineage

/-- The number that ranks a severity. -/
def Severity.level : Severity → Int
  | debug => 10
  | info => 20
  | warning => 30
  | error => 40
  | critical => 50

namespace Log

/-- The name of a level in a line. Only some levels have one of their own. -/
def levelName (level : Int) : String :=
  match level with
  | 0 => "NOTSET"
  | 10 => "DEBUG"
  | 20 => "INFO"
  | 30 => "WARNING"
  | 40 => "ERROR"
  | 50 => "CRITICAL"
  | _ => "Level " ++ toString level

/-- The levels that can be asked for, by their names. -/
def namedLevels : List (String × Int) :=
  [("CRITICAL", 50), ("FATAL", 50), ("ERROR", 40), ("WARN", 30), ("WARNING", 30), ("INFO", 20),
   ("DEBUG", 10), ("NOTSET", 0)]

/-- The level with a name, which is taken in upper case. -/
def levelOf (name : String) : Except Fault Int :=
  match namedLevels.lookup (Text.upper name) with
  | some level => pure level
  | none => throw (.of (.unknownLevel (Text.quoted (Text.upper name))))

/-- How important a level is, from zero to ten. -/
def importances : List (String × Int) :=
  [("DEBUG", 2), ("INFO", 4), ("WARNING", 6), ("ERROR", 8), ("CRITICAL", 10)]

/-- The importance of a level by its name, blanks and case aside; four if there
    is no such level: `importance_from_level`. -/
def importanceOf (name : String) : Int :=
  (importances.lookup (Text.upper (Text.trim name))).getD 4

end Log

end Lineage
