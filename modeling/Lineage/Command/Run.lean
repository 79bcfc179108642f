import Lineage.Command.Files
import Lineage.Command.Words
import Lineage.Count
import Lineage.Json.Writer
import Lineage.Log.Format
import Lineage.Selector.Parse
import Lineage.Text.Styling

namespace Lineage.Command

/-- What a call comes to: its exit code, what it prints, and the failure that
    ended it, if one did. -/
structure Outcome where
  exit : Nat := 0
  stdout : String := ""
  stderr : String := ""
  fault : Option Fault := none

/-- Why a command stopped: its words were wrong, it reports an error, or it
    failed. -/
inductive Stop where
  | misuse (misuse : Misuse)
  | error (message : String)
  | fault (fault : Fault)

/-- The options of a command once their values are read. -/
structure Settings where
  reverse : Option Bool
  maxDepth : Option Int
  format : Option String
  logLevel : Option String
  config : Option String
  test : Option String
  tree : String

/-- Checks the value of an option. -/
def checkOption (files : Files) (words : Words) (key : Key) : Except Misuse Unit :=
  match words.value? key with
  | none => pure ()
  | some value =>
    match key with
    | .maxDepth => if (Numeral.readInt? value).isSome then pure () else throw (.notInteger value)
    | .format => if value == "json" || value == "text" then pure () else throw (.noSuchFormat value)
    | .config =>
      match files value with
      | .directory => throw (.configIsDirectory value)
      | _ => pure ()
    | _ => pure ()

/-- Checks the path of the tree. -/
def checkTree (files : Files) (path : String) : Except Misuse Unit :=
  match files path with
  | .missing => throw (.noSuchFile path)
  | .directory => throw (.treeIsDirectory path)
  | .file _ => pure ()

/-- Reads the values of the options, in the order given, and then the
    argument. -/
def Settings.ofWords (files : Files) (words : Words) : Except Misuse Settings := do
  words.keys.forM (checkOption files words)
  match words.arguments with
  | [] => throw .missingArgument
  | tree :: extra =>
    checkTree files tree
    if !extra.isEmpty then throw (.extraArguments extra)
    pure
      { reverse := words.reverse
        maxDepth := (words.value? .maxDepth).bind Numeral.readInt?
        format := words.value? .format
        logLevel := words.value? .logLevel
        config := words.value? .config
        test := words.value? .test
        tree }

/-- The bytes at a path. A directory cannot be read. -/
def bytesAt (files : Files) (path : String) : Except Fault (Option (List UInt8)) :=
  match files path with
  | .file bytes => pure (some bytes)
  | .missing => pure none
  | .directory => throw (.of (.isDirectory path))

/-- The options that override a configuration. -/
def Settings.overrides (settings : Settings) : List (String × Datum) :=
  let text : Option String → Datum
    | some s => .text s
    | none => .null
  [("reverse", match settings.reverse with
      | some b => .bool b
      | none => .null),
   ("max_depth", match settings.maxDepth with
      | some n => .int n
      | none => .null),
   ("output_format", text settings.format),
   ("log_level", text settings.logLevel)]

/-- The configuration in a file, if one is given. -/
def baseConfig (files : Files) (path : Option String) (levels : Nat := maxLevels) :
    Except Fault Config :=
  match path with
  | none => pure {}
  | some path => do
    let content ← bytesAt files (normalPath path)
    Config.load (normalPath path) content levels

/-- How a failure to configure is reported. -/
def configStop (fault : Fault) : Stop :=
  match fault.category with
  | .complaint _ => .error fault.message
  | category => if category.isMismatch && category ≠ .type then
      .error ("Invalid option: " ++ fault.message)
    else .fault fault

/-- The configuration that a command works with: `_resolve_config`. -/
def Settings.resolve (files : Files) (settings : Settings) (levels : Nat := maxLevels) :
    Except Stop Config :=
  match baseConfig files settings.config levels with
  | .error fault => throw (configStop fault)
  | .ok base =>
    match base.merged settings.overrides with
    | .ok config => pure config
    | .error complaints => throw (configStop (Config.complaintsFault complaints))

/-- The tree at a path, a mapping with a type: `_load_tree`. -/
def loadTree (files : Files) (path : String) (levels : Nat := maxLevels) :
    Except Stop Datum :=
  let path := normalPath path
  let read : Except Fault (Except String Datum) := do
    let content ← bytesAt files path
    let text ← Config.readTextFile (content.getD [])
    Config.readDocument text levels
  match read with
  | .error fault => throw (.fault fault)
  | .ok (.error message) => throw (.error ("Invalid JSON in " ++ path ++ ": " ++ message))
  | .ok (.ok (.mapping fields)) =>
    if (fields.lookup "type").isSome then pure (.mapping fields)
    else throw (.error ("Tree root in " ++ path ++ " must be a JSON object with a 'type' field"))
  | .ok (.ok _) =>
    throw (.error ("Tree root in " ++ path ++ " must be a JSON object with a 'type' field"))

/-- The test of a selector; none is given by no selector or an empty one:
    `_parse_selector`. -/
def loadTest : Option String → Except Stop Datum
  | none => pure .null
  | some selector =>
    if selector.isEmpty then pure .null
    else
      match Selector.parse selector with
      | .ok test => pure test
      | .error error => throw (.error (error.message selector))

/-- A finding as a document. -/
def findingDatum (finding : Finding) : Datum :=
  .mapping [("type", finding.type), ("depth", .int finding.depth), ("path", .list finding.path),
    ("label", finding.label)]

/-- Lines of text, and the failure that came after them, if one did. -/
structure Printed where
  text : String
  fault : Option Fault := none

/-- A line of output, without the styles that its text may bring along. -/
def outputLine (text : String) : String :=
  Text.unstyled text ++ "\n"

/-- The labels of findings, two blanks to a level. A label that is no text ends
    the output. -/
def printLabels : List Finding → Printed
  | [] => ⟨"", none⟩
  | finding :: rest =>
    match finding.label with
    | .scalar (.text label) =>
      let line := outputLine (String.ofList (List.replicate (2 * finding.depth) ' ') ++ label)
      let after := printLabels rest
      ⟨line ++ after.text, after.fault⟩
    | label => ⟨"", some (.of (.notJoinable label.kind))⟩

/-- The findings in a format: the end of `walk`. -/
def printFindings (format : Config.Format) (findings : List Finding) : Printed :=
  match format with
  | .json => ⟨Json.write .full 0 (.list (findings.map findingDatum)) ++ "\n", none⟩
  | .text => printLabels findings

/-- The counts of types in a format: the end of `count`. -/
def printCounts (format : Config.Format) (findings : List Finding) : Printed :=
  match Tally.ofFindings findings with
  | .error fault => ⟨"", some fault⟩
  | .ok tallies =>
    match format with
    | .json =>
      let fields := tallies.map fun tally => (Json.keyText tally.type, Datum.int tally.count)
      ⟨Json.write .ascii 0 (.mapping fields) ++ "\n", none⟩
    | .text =>
      ⟨String.join (tallies.map fun tally =>
        outputLine (tally.type.display ++ "\t" ++ toString tally.count)), none⟩

/-- Prints what a command is about. -/
def Verb.print : Verb → Config.Format → List Finding → Printed
  | walk => printFindings
  | count => printCounts

/-- What a command has around it: the name of the program, the time in seconds
    that its log lines are written at, and the files it can see. -/
structure Surroundings where
  program : String
  time : Scalar
  files : Files

/-- Carries out a command with its options read: the bodies of `walk` and `count`. -/
def execute (around : Surroundings) (verb : Verb) (settings : Settings)
    (levels : Nat := maxLevels) : Except Stop Outcome := do
  let files := around.files
  let config ← settings.resolve files levels
  let tree ← loadTree files settings.tree levels
  let test ← loadTest settings.test
  let result := Collect.run tree test config
  let stderr :=
    String.join ((Log.linesFrom around.time config.logLevel.level result.journal).map (· ++ "\n"))
  match result.findings with
  | .error fault => pure { exit := 1, stderr, fault := some fault }
  | .ok findings =>
    let printed := verb.print config.outputFormat findings
    pure
      { exit := if printed.fault.isSome then 1 else 0
        stdout := printed.text
        stderr
        fault := printed.fault }

/-- What a stop comes to. -/
def Stop.outcome (around : Surroundings) (subject : Subject) : Stop → Outcome
  | misuse m => { exit := 2, stderr := m.report around.program subject }
  | error message => { exit := 1, stderr := outputLine ("Error: " ++ message) }
  | fault f => { exit := 1, fault := some f }

/-- Runs a command on its words. -/
def runVerb (around : Surroundings) (verb : Verb) (arguments : List String)
    (levels : Nat := maxLevels) : Outcome :=
  let subject := Subject.command verb
  match Words.of subject arguments with
  | .error misuse => (Stop.misuse misuse).outcome around subject
  | .ok words =>
    if words.help then { stdout := subject.help around.program }
    else
      match Settings.ofWords around.files words with
      | .error misuse => (Stop.misuse misuse).outcome around subject
      | .ok settings =>
        match execute around verb settings levels with
        | .ok outcome => outcome
        | .error stop => stop.outcome around subject

/-- Runs the program on its words: the group `cli`. Without any it shows its help as an error. The
    documents that it reads may nest as many levels deep as the calls in progress
    leave to the interpreter. -/
def run (around : Surroundings) (arguments : List String) (levels : Nat := maxLevels) : Outcome :=
  let subject := Subject.program
  let refuse (misuse : Misuse) := (Stop.misuse misuse).outcome around subject
  if arguments.isEmpty then { exit := 2, stderr := subject.help around.program }
  else
    match Words.of subject arguments with
    | .error misuse => refuse misuse
    | .ok words =>
      if words.help then { stdout := subject.help around.program }
      else
        match words.arguments with
        | [] => refuse .missingCommand
        | name :: rest =>
          match Verb.ofName? name with
          | some verb => runVerb around verb rest levels
          | none =>
            match Words.of subject (name :: rest) with
            | .error misuse => refuse misuse
            | .ok _ => refuse (.noSuchCommand name (Text.closeMatches name Verb.names))

end Lineage.Command
