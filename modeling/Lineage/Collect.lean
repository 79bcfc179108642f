import Lineage.Check.Test
import Lineage.Config
import Lineage.Store.Build
import Lineage.Walk

namespace Lineage

/-- The plain data that a value stands for, down to a depth. -/
def Store.toDatumAt (store : Store) : Nat → Value → Datum
  | _, .scalar s => .scalar s
  | fuel + 1, .cell ref =>
    match store.get? ref with
    | some (.list items) => .list (items.map (store.toDatumAt fuel))
    | some (.tuple items) => .tuple (items.map (store.toDatumAt fuel))
    | some (.mapping fields) =>
      .mapping (fields.map fun (key, value) => (key, store.toDatumAt fuel value))
    | _ => .null
  | _, _ => .null

/-- The plain data that a value without cycles stands for. -/
def Store.toDatum (store : Store) (value : Value) : Datum :=
  store.toDatumAt store.size value

mutual

/-- How many parts a datum has, the characters of its texts included. -/
def Datum.weight : Datum → Nat
  | .scalar s => (s.text?.getD "").length + 1
  | .list items => Datum.weights items + 1
  | .tuple items => Datum.weights items + 1
  | .mapping fields => Datum.fieldWeights fields + 1

/-- The parts of all the items of a list. -/
def Datum.weights : List Datum → Nat
  | [] => 0
  | item :: rest => item.weight + Datum.weights rest

/-- The parts of all the values of a mapping. -/
def Datum.fieldWeights : List (String × Datum) → Nat
  | [] => 0
  | (_, value) :: rest => value.weight + Datum.fieldWeights rest

end

/-- What is told about a node, a record of `_collect`: its type, its depth, the types of its ancestors
    from the root on, and its label. -/
structure Finding where
  type : Datum
  depth : Nat
  path : List Datum
  label : Datum

namespace Collect

/-- A host without any functions. -/
def noHost {σ : Type} : Host σ := fun _ _ => pure .null

/-- The finding on a node. It takes a label that can be made. -/
def findingOf (store : Store) (node : Value) (lineage : List Value) : Except Fault Finding := do
  let label ← store.describe node
  pure
    { type := store.toDatum (store.typeOf node)
      depth := lineage.length
      path := lineage.reverse.map fun ancestor => store.toDatum (store.typeOf ancestor)
      label := store.toDatum label }

/-- Adds a finding; the newest comes first. -/
def keep (finding : Finding) : Act (List Finding) Unit := fun world =>
  .ok () { world with user := finding :: world.user }

/-- Whether nodes below a depth are left out. -/
def isDeepest (maxDepth : Option Nat) (depth : Nat) : Bool :=
  match maxDepth with
  | some limit => limit ≤ depth
  | none => false

/-- The visitor of `_collect`, which keeps a finding on every node that passes a
    check. It sees
    all nodes, so that the depth limit holds for those that do not pass. -/
def inspect (check : Check) (maxDepth : Option Nat) (place : Place) (lineage : List Value) :
    Act (List Finding) Value := do
  let parent := (lineage.head?).getD .null
  if ← check.test noHost { node := place.node, parent } then
    let store ← Act.store
    let finding ← Act.ofExcept (findingOf store place.node lineage)
    keep finding
  pure (if isDeepest maxDepth lineage.length then .action .skip else .null)

/-- The walk that collects findings. -/
def walker (check : Check) (config : Config) : Walker (List Finding) where
  check place := Check.anything.test noHost place
  visit place lineage := inspect check config.maxDepth place lineage
  reverse := config.reverse
  annotate := config.annotateErrors

/-- What collecting comes to: the findings in the order of the walk or a
    failure, and the journal. -/
structure Result where
  findings : Except Fault (List Finding)
  journal : List Entry

/-- Collects the findings on the nodes of a tree that pass a test: `_collect`. A
    step of
    the walk takes a part of the tree or leaves a node, so that twice as many
    steps as the tree has parts are enough. -/
def run (tree test : Datum) (config : Config) : Result :=
  let (root, store) := tree.build .empty
  let (testValue, store) := test.build store
  let world : World (List Finding) := ⟨store, [], []⟩
  match Check.convert testValue world with
  | .error fault world => ⟨.error fault, world.journal⟩
  | .ok check world =>
    match (walker check config).walk (2 * tree.weight + 2) root world with
    | none => ⟨.error (.of (.tooDeep .converting)), world.journal⟩
    | some (.error fault world) => ⟨.error fault, world.journal⟩
    | some (.ok _ world) =>
      let findings := world.user.reverse
      let entry := .said .info ("Collected " ++ toString findings.length ++ " nodes")
      ⟨.ok findings, entry :: world.journal⟩

end Collect

end Lineage
