import Lineage.Config.Field
import Lineage.Json.Reader
import Lineage.Text.Utf8

namespace Lineage

/-- The options of a walk, the program's `WalkConfig`. A depth limit of zero leaves
    the root alone. -/
structure Config where
  reverse : Bool := false
  maxDepth : Option Nat := none
  annotateErrors : Bool := false
  outputFormat : Config.Format := .text
  logLevel : Severity := .warning
  deriving DecidableEq, Repr

namespace Config

/-- A problem with the value of a field. -/
structure Complaint where
  field : String
  problem : Problem
  input : Datum

/-- A key in a message; one with a dot in it is set apart. -/
def shownKey (key : String) : String :=
  if key.toList.contains '.' then "`" ++ key ++ "`" else key

/-- The wording of a problem: the field on one line, what is wrong on the next. -/
def Complaint.message (complaint : Complaint) : String :=
  "\n" ++ shownKey complaint.field ++ "\n  " ++ complaint.problem.message ++ " [type=" ++
    complaint.problem.tag ++ ", input_value=" ++ Text.abridged complaint.input.shown ++
    ", input_type=" ++ complaint.input.kind.name ++ "]"

/-- The wording of all the problems of a configuration. -/
def complaintsMessage (complaints : List Complaint) : String :=
  let n := complaints.length
  toString n ++ " validation error" ++ (if n == 1 then "" else "s") ++ " for WalkConfig" ++
    String.join (complaints.map Complaint.message)

/-- The names of the fields in their order. -/
def fieldNames : List String :=
  ["reverse", "max_depth", "annotate_errors", "output_format", "log_level"]

/-- Reads a field, which has a default when it is absent. -/
def field {α : Type} (fields : List (String × Datum)) (name : String) (default : α)
    (read : Datum → Except Problem α) : Except Complaint α :=
  match fields.lookup name with
  | none => pure default
  | some input =>
    match read input with
    | .ok value => pure value
    | .error problem => throw ⟨name, problem, input⟩

/-- What is wrong with a field, if anything is. -/
def problemOf {α : Type} : Except Complaint α → List Complaint
  | .ok _ => []
  | .error complaint => [complaint]

/-- The complaints about fields that there are none of. -/
def unknownFields (fields : List (String × Datum)) : List Complaint :=
  fields.filterMap fun (key, input) =>
    if fieldNames.contains key then none else some ⟨key, .unknown, input⟩

/-- Makes a configuration of named values, or tells everything that is wrong
    with them: known fields in their order, then unknown ones as given. -/
def ofFields (fields : List (String × Datum)) : Except (List Complaint) Config :=
  let reverse := field fields "reverse" false readBool
  let maxDepth := field fields "max_depth" none readDepth
  let annotateErrors := field fields "annotate_errors" false readBool
  let outputFormat := field fields "output_format" .text readFormat
  let logLevel := field fields "log_level" .warning readSeverity
  let unknown := unknownFields fields
  match reverse, maxDepth, annotateErrors, outputFormat, logLevel, unknown with
  | .ok reverse, .ok maxDepth, .ok annotateErrors, .ok outputFormat, .ok logLevel, [] =>
    pure { reverse, maxDepth, annotateErrors, outputFormat, logLevel }
  | _, _, _, _, _, _ =>
    throw (problemOf reverse ++ problemOf maxDepth ++ problemOf annotateErrors ++
      problemOf outputFormat ++ problemOf logLevel ++ unknown)

/-- The values of a configuration by the names of its fields. -/
def toFields (config : Config) : List (String × Datum) :=
  [("reverse", .bool config.reverse),
   ("max_depth", match config.maxDepth with
      | some depth => .int depth
      | none => .null),
   ("annotate_errors", .bool config.annotateErrors),
   ("output_format", .text config.outputFormat.name),
   ("log_level", .text (severityName config.logLevel))]

/-- A datum that is null. -/
def isNull : Datum → Bool
  | .null => true
  | _ => false

/-- The fields with those of the overrides that are not null laid over them. -/
def overlay (fields overrides : List (String × Datum)) : List (String × Datum) :=
  (overrides.filter fun field => !isNull field.2).foldl
    (fun fields (key, value) => setField key value fields) fields

/-- The configuration with overrides; those that are null do not count:
    `WalkConfig.merged`. -/
def merged (config : Config) (overrides : List (String × Datum)) : Except (List Complaint) Config :=
  ofFields (overlay config.toFields overrides)

/-- The failure of values that make no configuration. -/
def complaintsFault (complaints : List Complaint) : Fault :=
  .of (.invalidFields (complaintsMessage complaints))

/-- Reads bytes as text with plain newlines. -/
def readTextFile (bytes : List UInt8) : Except Fault String :=
  match Text.decode bytes with
  | .ok text => pure (String.ofList (Text.unifyNewlines text.toList))
  | .error error => throw (.of (.undecodable error.message))

/-- Reads a document. What is wrong with its form is an answer; an integer that
    is too long and too many levels are failures. -/
def readDocument (text : String) (levels : Nat := maxLevels) : Except Fault (Except String Datum) :=
  match Json.parse text levels with
  | .ok datum => pure (.ok datum)
  | .error (.longInteger digits) => throw (.of (.longInteger digits))
  | .error (.tooDeep descending) => throw (.of (.tooDeep descending))
  | .error error => pure (.error error.message)

/-- What a text says as a configuration: the configuration or the reason why it
    is none. -/
def ofText (text : String) (levels : Nat := maxLevels) :
    Except Fault (Except String Config) := do
  match ← readDocument text levels with
  | .error message => pure (.error ("Invalid JSON: " ++ message))
  | .ok (.mapping fields) =>
    match ofFields fields with
    | .ok config => pure (.ok config)
    | .error complaints => pure (.error ("Validation error: " ++ complaintsMessage complaints))
  | .ok _ => pure (.error "Configuration root must be a JSON object")

/-- Validates the file at a path, given its bytes if it exists: `validate_config`.
    What it reads may nest so many levels deep. -/
def validate (path : String) (content : Option (List UInt8)) (levels : Nat := maxLevels) :
    Except Fault (Except String Config) := do
  match content with
  | none => pure (.error ("Configuration file not found: " ++ path))
  | some bytes =>
    let text ← readTextFile bytes
    ofText text levels

/-- The configuration in the file at a path: `load_config`. -/
def load (path : String) (content : Option (List UInt8)) (levels : Nat := maxLevels) :
    Except Fault Config := do
  match ← validate path content levels with
  | .ok config => pure config
  | .error message => throw (.of (.complaint (.about .config message (some path) .null)))

end Config

end Lineage
