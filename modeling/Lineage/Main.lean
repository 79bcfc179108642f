import Lineage.Command.Run
import Std.Time.DateTime.Timestamp

namespace Lineage.Command

/-- The words of a call that may be paths: each word, what follows an equals
    sign in it, and what follows its first two characters. -/
def candidatePaths (arguments : List String) : List String :=
  let pieces := arguments.flatMap fun word =>
    let cs := word.toList
    [word, String.ofList ((cs.dropWhile (· ≠ '=')).drop 1), String.ofList (cs.drop 2)]
  pieces.flatMap fun path => [path, normalPath path]

/-- Looks at what stands at a path. -/
def lookAt (path : String) : IO Entry := do
  try
    let bytes ← IO.FS.readBinFile path
    pure (.file bytes.toList)
  catch error =>
    match error with
    | .inappropriateType .. => pure .directory
    | _ => pure .missing

/-- Looks at all the paths that a call may be about. -/
def lookAround (arguments : List String) : IO Files := do
  let seen ← (candidatePaths arguments).mapM fun path => return (path, ← lookAt path)
  pure fun path => (seen.lookup path).getD .missing

end Lineage.Command

/-- Runs the program on the words of the command line. -/
def main (arguments : List String) : IO UInt32 := do
  let files ← Lineage.Command.lookAround arguments
  let now ← Std.Time.Timestamp.now
  let time : Lineage.Scalar := .int now.toSecondsSinceUnixEpoch.val
  let outcome := Lineage.Command.run ⟨"lineage", time, files⟩ arguments
  IO.print outcome.stdout
  IO.eprint outcome.stderr
  match outcome.fault with
  | some fault => IO.eprintln fault.message
  | none => pure ()
  pure (UInt32.ofNat outcome.exit)
