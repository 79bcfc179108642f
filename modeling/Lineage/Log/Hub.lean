import Lineage.Log.Format

namespace Lineage.Log

/-- A place that lines are sent to, with a stream of its own. The hub's own
    handlers are told from those that other code has added. -/
structure Handler where
  owned : Bool
  formatter : Formatter
  stream : Nat
  deriving DecidableEq

/-- The loggers below one name: the handlers that get their records, the least
    level that passes, zero for the general default, what was written to every
    stream so far, and the names of the loggers that were used. -/
structure Hub where
  name : String
  handlers : List Handler
  level : Int
  streams : List String
  loggers : List String

/-- The names above a logger, nearest first: what stands before a dot. Of two
    dots side by side only the second one counts. The characters come last one
    first, in the name and in those above it. -/
def namesAbove (reversed : List Char) : List (List Char) :=
  match _hrest : reversed.dropWhile (· ≠ '.') with
  | [] => []
  | [_] => []
  | _ :: above => above :: namesAbove (above.drop 1)
termination_by reversed.length
decreasing_by
  have hle := (List.dropWhile_suffix (· ≠ '.') (l := reversed)).length_le
  rw [_hrest] at hle
  simp only [List.length_cons] at hle
  simp only [List.length_drop]
  omega

namespace Hub

/-- The hub for a name before anything was set up. -/
def new (name : String) : Hub := ⟨name, [], 0, [], []⟩

/-- The level from which records pass when none was set. -/
def defaultLevel : Int := 30

/-- Opens another stream and gives its number. -/
def openStream (hub : Hub) : Nat × Hub :=
  (hub.streams.length, { hub with streams := hub.streams ++ [""] })

/-- Adds a handler, unless the hub has it already. -/
def add (hub : Hub) (handler : Handler) : Hub :=
  if handler ∈ hub.handlers then hub else { hub with handlers := hub.handlers ++ [handler] }

/-- Removes a handler, if the hub has it. -/
def remove (hub : Hub) (handler : Handler) : Hub :=
  { hub with handlers := hub.handlers.erase handler }

/-- Adds a handler of other code with its patterns, writing to a new stream. The
    stream is open even if the patterns are refused. -/
def attach (hub : Hub) (patterns : List (Option String)) : Hub × Except Flaw Unit :=
  let (stream, hub) := hub.openStream
  match Formatter.ofGiven patterns with
  | .ok formatter => (hub.add ⟨false, formatter, stream⟩, .ok ())
  | .error flaw => (hub, .error flaw)

/-- Removes the hub's own handlers, one after the other, adds a new one and sets
    the level: `configure_logging`. A name that is no level is refused when the handler is already
    replaced. -/
def configure (hub : Hub) (level : String) : Hub × Except Fault Unit :=
  let (stream, hub) := hub.openStream
  let hub := (hub.handlers.filter (·.owned)).foldl remove hub
  let hub := hub.add ⟨true, unified, stream⟩
  match levelOf level with
  | .ok level => ({ hub with level }, .ok ())
  | .error fault => (hub, .error fault)

/-- Whether there is a logger of a name. -/
def knows (hub : Hub) (logger : String) : Bool :=
  logger == hub.name || hub.loggers.contains logger

/-- The logger that the records of another one go on to, if it is known. -/
def parent? (hub : Hub) (logger : String) : Option String :=
  ((namesAbove logger.toList.reverse).map fun name => String.ofList name.reverse).find? hub.knows

/-- Whether records of a logger get to the hub over `steps` others at most. -/
def reaches (hub : Hub) : Nat → String → Bool
  | 0, logger => logger == hub.name
  | steps + 1, logger => logger == hub.name || (hub.parent? logger).any (hub.reaches steps)

/-- Whether a logger stands at or below the hub's name. Every step shortens the
    name. -/
def covers (hub : Hub) (logger : String) : Bool :=
  hub.reaches logger.length logger

/-- Whether records of a level pass. Only levels above zero ever do. -/
def passes (hub : Hub) (level : Int) : Bool :=
  0 < level && (if hub.level = 0 then defaultLevel else hub.level) ≤ level

/-- Adds a line to a stream. -/
def write (hub : Hub) (stream : Nat) (line : String) : Hub :=
  { hub with streams := hub.streams.modify stream (· ++ line ++ "\n") }

/-- Sends a record to a handler; one whose pattern cannot be filled writes
    nothing. -/
def emit (hub : Hub) (record : Record) (handler : Handler) : Hub :=
  match handler.formatter.format record with
  | .ok line => hub.write handler.stream line
  | .error _ => hub

/-- Sends a record to every handler, if its logger is one of the hub's. -/
def log (hub : Hub) (record : Record) : Hub :=
  let hub := { hub with loggers := hub.loggers ++ [record.logger] }
  if hub.covers record.logger && hub.passes record.level then
    hub.handlers.foldl (fun hub handler => hub.emit record handler) hub
  else hub

end Hub

end Lineage.Log
