import Lineage.Text.Quoted
import Lineage.Text.Similar
import Lineage.Text.Styling

namespace Lineage.Command

/-- The commands. -/
inductive Verb where
  | walk
  | count
  deriving DecidableEq, Repr

/-- The word that calls a command. -/
def Verb.name : Verb → String
  | walk => "walk"
  | count => "count"

/-- The command that a word calls. -/
def Verb.ofName? : String → Option Verb
  | "walk" => some .walk
  | "count" => some .count
  | _ => none

/-- The words that call the commands. -/
def Verb.names : List String := [Verb.count.name, Verb.walk.name]

/-- What is called: the program itself, or one of its commands. -/
inductive Subject where
  | program
  | command (verb : Verb)
  deriving DecidableEq, Repr

/-- What is wrong with the words of a call. -/
inductive Misuse where
  | noSuchOption (name : String) (similar : List String)
  | needsArgument (name : String)
  | takesNoValue (name : String)
  | missingArgument
  | extraArguments (words : List String)
  | notInteger (value : String)
  | noSuchFormat (value : String)
  | noSuchFile (path : String)
  | treeIsDirectory (path : String)
  | configIsDirectory (path : String)
  | noSuchCommand (name : String) (similar : List String)
  | missingCommand
  deriving DecidableEq, Repr

/-- The names that may have been meant, in alphabetical order. -/
def suggestion : List String → String
  | [] => ""
  | [name] => " Did you mean " ++ Text.quoted name ++ "?"
  | names =>
    let sorted := names.mergeSort (· ≤ ·)
    " (Did you mean one of: " ++ ", ".intercalate (sorted.map Text.quoted) ++ "?)"

/-- The wording of a misuse. -/
def Misuse.message : Misuse → String
  | noSuchOption name similar => "No such option " ++ Text.quoted name ++ "." ++ suggestion similar
  | needsArgument name => "Option " ++ Text.quoted name ++ " requires an argument."
  | takesNoValue name => "Option " ++ Text.quoted name ++ " does not take a value."
  | missingArgument => "Missing argument 'TREE_FILE'."
  | extraArguments words =>
    "Got unexpected extra argument" ++ (if words.length == 1 then "" else "s") ++ " (" ++
      " ".intercalate words ++ ")"
  | notInteger value =>
    "Invalid value for '--max-depth': " ++ Text.quoted value ++ " is not a valid integer."
  | noSuchFormat value =>
    "Invalid value for '--format': " ++ Text.quoted value ++ " is not one of 'json', 'text'."
  | noSuchFile path =>
    "Invalid value for 'TREE_FILE': File " ++ Text.quoted path ++ " does not exist."
  | treeIsDirectory path =>
    "Invalid value for 'TREE_FILE': File " ++ Text.quoted path ++ " is a directory."
  | configIsDirectory path =>
    "Invalid value for '--config' / '-c': File " ++ Text.quoted path ++ " is a directory."
  | noSuchCommand name similar =>
    "No such command " ++ Text.quoted name ++ "." ++ suggestion similar
  | missingCommand => "Missing command."

/-- Whether a message goes without the lines on usage. -/
def Misuse.isBrief : Misuse → Bool
  | needsArgument _ | takesNoValue _ => true
  | _ => false

/-- The words that call a subject. -/
def Subject.path (program : String) : Subject → String
  | .program => program
  | .command verb => program ++ " " ++ verb.name

/-- The first line of a help text. -/
def Subject.usage (program : String) (subject : Subject) : String :=
  "Usage: " ++ subject.path program ++ " [OPTIONS] " ++
    (match subject with
    | .program => "COMMAND [ARGS]..."
    | .command _ => "TREE_FILE") ++ "\n"

/-- What is printed about a misuse. -/
def Misuse.report (program : String) (subject : Subject) (misuse : Misuse) : String :=
  let hint :=
    if misuse.isBrief then ""
    else
      subject.usage program ++ "Try '" ++ subject.path program ++ " --help' for help.\n\n"
  hint ++ "Error: " ++ Text.unstyled misuse.message ++ "\n"

/-- What a command does, in one sentence. -/
def Verb.summary : Verb → String
  | walk => "Print every node of TREE_FILE that passes the test, in visit order."
  | count => "Count nodes of TREE_FILE that pass the test, grouped by type."

/-- What a subject does. -/
def Subject.summary : Subject → String
  | .program => "Walk unist-style JSON trees, printing nodes with their ancestors."
  | .command verb => verb.summary

/-- The options of a subject as its help text lists them. -/
def Subject.optionRows : Subject → List (String × String)
  | .program => [("--help", "Show this message and exit.")]
  | .command verb =>
    [("-t, --test TEXT", "Selector, e.g. \"heading[depth=1], paragraph\"")] ++
    (if verb = .walk then [("--reverse / --forward", "Visit siblings from last to first")] else []) ++
    [("--max-depth INTEGER", "Do not descend below this depth"),
     ("--format [json|text]", "Output format"),
     ("-c, --config FILE", "JSON configuration file"),
     ("--log-level TEXT", "Logging level (default: WARNING)"),
     ("--help", "Show this message and exit.")]

/-- Rows of two columns, the second of which is flush. -/
def table (rows : List (String × String)) : String :=
  let width := (rows.map (·.1.length)).foldl max 0
  String.join (rows.map fun (left, right) =>
    "  " ++ left ++ String.ofList (List.replicate (width + 2 - left.length) ' ') ++ right ++ "\n")

/-- The help text of a subject. -/
def Subject.help (program : String) (subject : Subject) : String :=
  subject.usage program ++ "\n  " ++ subject.summary ++ "\n\nOptions:\n" ++
    table subject.optionRows ++
    (match subject with
    | .program => "\nCommands:\n" ++ table ([Verb.count, .walk].map fun verb => (verb.name, verb.summary))
    | .command _ => "")

end Lineage.Command
