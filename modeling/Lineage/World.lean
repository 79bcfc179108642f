import Lineage.Store

namespace Lineage

/-- How much a message matters. -/
inductive Severity where
  | debug
  | info
  | warning
  | error
  | critical
  deriving DecidableEq, Repr

/-- Where a node was met: its index among the children of its parent. Index
    and parent are null at the root. -/
structure Place where
  node : Value
  index : Value := .null
  parent : Value := .null
  deriving DecidableEq

/-- What a walk did, one thing at a time: it said something, put the test to a
    node, or called the visitor with the ancestors of a node, nearest first. -/
inductive Entry where
  | said (severity : Severity) (message : String)
  | offered (place : Place)
  | visited (place : Place) (lineage : List Value)

/-- All that a walk can read and change. The journal has its newest entry
    first; `user` belongs to the tests and visitors of the caller. -/
structure World (σ : Type) where
  store : Store
  journal : List Entry
  user : σ

/-- An activity that may change the world and may fail. What it changed before
    a failure stays changed. -/
abbrev Act (σ : Type) := EStateM Fault (World σ)

/-- How a function of the caller is called: with the place of a node, or with
    a node and its ancestors, nearest first. -/
inductive Call where
  | atPlace (place : Place)
  | inLineage (node : Value) (lineage : List Value)

/-- The functions of the caller by their numbers. They can change the store
    and the caller's own state, return any value, and fail. -/
abbrev Host (σ : Type) := Nat → Call → EStateM Fault (Store × σ) Value

namespace Act

variable {σ : Type}

/-- The store as it is now. -/
def store : Act σ Store := fun world => .ok world.store world

/-- Adds an entry to the journal. -/
def record (entry : Entry) : Act σ Unit := fun world =>
  .ok () { world with journal := entry :: world.journal }

/-- Adds a message to the journal. -/
def say (severity : Severity) (message : String) : Act σ Unit :=
  record (.said severity message)

/-- A result that needed no world. -/
def ofExcept {α : Type} : Except Fault α → Act σ α
  | .ok a => fun world => .ok a world
  | .error fault => fun world => .error fault world

/-- Puts a compound value into the store. -/
def alloc (cell : Cell) : Act σ Value := fun world =>
  let (value, store) := world.store.alloc cell
  .ok value { world with store }

/-- Calls a function of the caller, which sees no journal. -/
def call (host : Host σ) (function : Nat) (arguments : Call) : Act σ Value := fun world =>
  match host function arguments (world.store, world.user) with
  | .ok value (store, user) => .ok value { world with store, user }
  | .error fault (store, user) => .error fault { world with store, user }

/-- Hands a failure of an activity to `handle`, in the world the failure left. -/
def rescue {α : Type} (act : Act σ α) (handle : Fault → Act σ α) : Act σ α := fun world =>
  match act world with
  | .ok a world => .ok a world
  | .error fault world => handle fault world

end Act

/-- The messages of a journal, oldest first. -/
def messages (journal : List Entry) : List (Severity × String) :=
  journal.reverse.filterMap fun
    | .said severity message => some (severity, message)
    | _ => none

end Lineage
