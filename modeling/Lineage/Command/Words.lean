import Lineage.Command.Usage

namespace Lineage.Command

/-- The options that take a value. -/
inductive Key where
  | test
  | maxDepth
  | format
  | config
  | logLevel
  deriving DecidableEq, Repr

/-- What an option does with the call. -/
inductive Effect where
  | takes (key : Key)
  | direction (reverse : Bool)
  | help
  deriving DecidableEq, Repr

/-- The long options of a subject. -/
def Subject.longOptions : Subject → List (String × Effect)
  | .program => [("--help", .help)]
  | .command verb =>
    [("--test", .takes .test)] ++
    (if verb = .walk then [("--reverse", .direction true), ("--forward", .direction false)]
    else []) ++
    [("--max-depth", .takes .maxDepth), ("--format", .takes .format), ("--config", .takes .config),
     ("--log-level", .takes .logLevel), ("--help", .help)]

/-- The short options of a subject. -/
def Subject.shortOptions : Subject → List (String × Effect)
  | .program => []
  | .command _ => [("-t", .takes .test), ("-c", .takes .config)]

/-- The options and arguments of a call. The values are in the order given, so
    that the last one for a key counts. -/
structure Words where
  values : List (Key × String) := []
  reverse : Option Bool := none
  help : Bool := false
  arguments : List String := []

/-- The value of an option: the last one given. -/
def Words.value? (words : Words) (key : Key) : Option String :=
  words.values.reverse.lookup key

/-- The options with a value in the order in which they were first given. -/
def Words.keys (words : Words) : List Key :=
  (words.values.map (·.1)).eraseDups

/-- Carries out an option that takes no value. -/
def Words.mark (words : Words) : Effect → Words
  | .takes _ => words
  | .direction reverse => { words with reverse := some reverse }
  | .help => { words with help := true }

/-- Gives an option its value. -/
def Words.give (words : Words) (key : Key) (value : String) : Words :=
  { words with values := words.values ++ [(key, value)] }

/-- The value of an option from the words that follow. -/
def takeValue (name : String) (words : Words) (key : Key) :
    List String → Except Misuse (Words × List String)
  | [] => throw (.needsArgument name)
  | value :: rest => pure (words.give key value, rest)

/-- A word that starts with two dashes: an option, perhaps with a value after an
    equals sign. -/
def readLong (subject : Subject) (words : Words) (word : String) (rest : List String) :
    Except Misuse (Words × List String) :=
  let name := String.ofList (word.toList.takeWhile (· ≠ '='))
  let attached : Option String :=
    match word.toList.dropWhile (· ≠ '=') with
    | [] => none
    | _ :: value => some (String.ofList value)
  match subject.longOptions.lookup name with
  | none =>
    throw (.noSuchOption name (Text.closeMatches name (subject.longOptions.map (·.1))))
  | some (.takes key) =>
    match attached with
    | some value => pure (words.give key value, rest)
    | none => takeValue name words key rest
  | some effect =>
    match attached with
    | some _ => throw (.takesNoValue name)
    | none => pure (words.mark effect, rest)

/-- The letters of a word that starts with one dash. The rest of the word after
    a letter that takes a value is that value. -/
def readShort (subject : Subject) (rest : List String) :
    Words → List Char → Except Misuse (Words × List String)
  | words, [] => pure (words, rest)
  | words, letter :: letters =>
    let name := String.ofList ['-', letter]
    match subject.shortOptions.lookup name with
    | none => throw (.noSuchOption name [])
    | some (.takes key) =>
      if letters.isEmpty then takeValue name words key rest
      else pure (words.give key (String.ofList letters), rest)
    | some effect => readShort subject rest (words.mark effect) letters

/-- Reads the words of a call. Two dashes alone end the options; for the program
    itself so does its first argument. -/
def readWords (subject : Subject) : Nat → Words → List String → Except Misuse Words
  | 0, words, rest => pure { words with arguments := words.arguments ++ rest }
  | _, words, [] => pure words
  | fuel + 1, words, word :: rest =>
    match word.toList with
    | ['-', '-'] => pure { words with arguments := words.arguments ++ rest }
    | '-' :: '-' :: _ => do
      let (words, rest) ← readLong subject words word rest
      readWords subject fuel words rest
    | '-' :: letter :: letters => do
      let (words, rest) ← readShort subject rest words (letter :: letters)
      readWords subject fuel words rest
    | _ =>
      match subject with
      | .program => pure { words with arguments := words.arguments ++ word :: rest }
      | .command _ => readWords subject fuel { words with arguments := words.arguments ++ [word] } rest

/-- The options and arguments in the words of a call. -/
def Words.of (subject : Subject) (words : List String) : Except Misuse Words :=
  readWords subject words.length {} words

end Lineage.Command
