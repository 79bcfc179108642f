namespace Lineage.Command

/-- What stands at a path. -/
inductive Entry where
  | missing
  | directory
  | file (bytes : List UInt8)

/-- The files that a command can see. -/
abbrev Files := String → Entry

/-- The parts of a path that lead anywhere. -/
def pathParts (path : String) : List String :=
  (path.splitOn "/").filter fun part => part ≠ "" && part ≠ "."

/-- A path without its idle parts. -/
def normalPath (path : String) : String :=
  let body := "/".intercalate (pathParts path)
  if path.startsWith "/" then "/" ++ body
  else if body.isEmpty then "."
  else body

/-- A directory that holds just the given files. -/
def Files.ofList (files : List (String × List UInt8)) : Files := fun path =>
  let parts := pathParts path
  if path.isEmpty then .missing
  else if parts.all (· == "..") then .directory
  else if path.endsWith "/" || path.endsWith "/." || path.startsWith "/" then .missing
  else
    match files.lookup (normalPath path) with
    | some bytes => .file bytes
    | none => .missing

end Lineage.Command
