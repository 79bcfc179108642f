import Lineage.Children
import Lineage.Directive

namespace Lineage

/-- A level of a walk, the program's `_Frame`: a node and the place of the child that is next. -/
structure Frame where
  parent : Value
  cursor : Value

/-- The state of `_walk` between two nodes: its stack, its ancestors and its count.
    Frames and lineage have the innermost level first; `walked` counts the nodes
    put to the test. -/
structure Descent where
  frames : List Frame
  lineage : List Value
  walked : Nat

/-- How a walk ended. -/
inductive Ending where
  | finished
  | exited
  deriving DecidableEq, Repr

/-- What a walk does next. -/
inductive Step where
  | done (ending : Ending)
  | more (descent : Descent)

/-- A walk to be made: the test put to every node, the visitor called for those
    that pass, the direction, and whether failures are told where they arose. -/
structure Walker (σ : Type) where
  check : Place → Act σ Bool
  visit : Place → List Value → Act σ Value
  reverse : Bool
  annotate : Bool

/-- The labels joined to a path, or the first of them that is no text. -/
def joinLabels (store : Store) (labels : List Value) : Except Fault String :=
  let bad := labels.zipIdx.find? fun (label, _) =>
    match label with
    | .scalar s => s.text?.isNone
    | _ => true
  match bad with
  | some (label, position) => throw (.of (.labelNotText position (store.kind label)))
  | none =>
    let texts := labels.filterMap fun
      | .scalar s => s.text?
      | _ => none
    pure (" > ".intercalate texts)

/-- The path from the root to a node in words, as `_annotate` makes it. All labels
    are made before any two are joined. -/
def pathText (store : Store) (node : Value) (lineage : List Value) : Except Fault String := do
  let labels ← (lineage.reverse ++ [node]).mapM store.describe
  joinLabels store labels

/-- A failure with a note on the node at which it arose: `_annotate`. Interrupts
    are left alone, and a path that cannot be written is a failure of its own. -/
def located (store : Store) (node : Value) (lineage : List Value) (fault : Fault) : Fault :=
  if fault.category = .interrupt then fault
  else
    match pathText store node lineage with
    | .ok path => fault.note ("while visiting " ++ path)
    | .error other => other

namespace Walker

variable {σ : Type}

/-- The distance from one sibling to the next. -/
def stride (walker : Walker σ) : Int :=
  if walker.reverse then -1 else 1

/-- Puts the test to a node and, if it passes, calls the visitor: what `one`
    inside `_walk` tries. -/
def consult (walker : Walker σ) (place : Place) (lineage : List Value) : Act σ Directive := do
  Act.record (.offered place)
  if ← walker.check place then
    Act.record (.visited place lineage)
    let answer ← walker.visit place lineage
    Directive.ofAnswer answer
  else pure {}

/-- Deals with one node; failures are annotated if the walk asks for it. This is
    `one` inside `_walk`. -/
def one (walker : Walker σ) (place : Place) (lineage : List Value) : Act σ Directive :=
  if walker.annotate then
    Act.rescue (walker.consult place lineage) fun fault => do
      let store ← Act.store
      Act.ofExcept (.error (located store place.node lineage fault))
  else walker.consult place lineage

/-- The place of the child a level starts with. -/
def startOf (walker : Walker σ) (store : Store) (children : Value) : Except Fault Value :=
  if walker.reverse then do
    let length ← store.lengthOf children
    pure (.int (length - 1))
  else pure (.int 0)

/-- Goes down to the children of a node, unless it has none or the directive
    leaves them out. This is `enter` inside `_walk`. -/
def enter (walker : Walker σ) (descent : Descent) (node : Value) (directive : Directive) :
    Act σ Descent := do
  let store ← Act.store
  let children := store.children node
  if children = .null ∨ directive.action = .action .skip then pure descent
  else
    let cursor ← Act.ofExcept (walker.startOf store children)
    pure { descent with
      frames := ⟨node, cursor⟩ :: descent.frames
      lineage := node :: descent.lineage }

/-- Tells where a walk starts and in which direction it goes. The message is
    made whether it is heard or not, so a label that cannot be written fails. -/
def announce (walker : Walker σ) (tree : Value) : Act σ Unit := do
  let store ← Act.store
  let label ← Act.ofExcept (store.labelText tree)
  Act.say .debug
    ("Starting traversal at " ++ label ++ " (reverse=" ++ (Scalar.bool walker.reverse).shown ++ ")")

/-- Deals with the root: `_walk` up to its loop. A walk that ends there has no
    state to go on with. -/
def start (walker : Walker σ) (tree : Value) : Act σ Step := do
  walker.announce tree
  let directive ← walker.one { node := tree } []
  if directive.action = .action .exit then
    Act.say .debug "Traversal exited at root"
    pure (.done .exited)
  else
    let descent ← walker.enter ⟨[], [], 1⟩ tree directive
    pure (.more descent)

/-- Ends a walk at a child and tells at which one. -/
def leave (child : Value) (walked : Nat) : Act σ Step := do
  let store ← Act.store
  let label ← Act.ofExcept (store.labelText child)
  Act.say .debug ("Traversal exited at " ++ label ++ " after " ++ toString walked ++ " nodes")
  pure (.done .exited)

/-- One turn of the loop in `_walk`: deals with the next child of the innermost
    level, or leaves the level when it has no next child. Children are read anew, so that what the visitor did
    to them counts. The cursor is moved before the child's own children. -/
def step (walker : Walker σ) (descent : Descent) : Act σ Step :=
  match descent.frames with
  | [] => do
    Act.say .debug ("Traversal finished, " ++ toString descent.walked ++ " nodes walked")
    pure (.done .finished)
  | frame :: outer => do
    let store ← Act.store
    let child ← Act.ofExcept (store.childAt (store.children frame.parent) frame.cursor)
    match child with
    | none => pure (.more { descent with frames := outer, lineage := descent.lineage.tail })
    | some .null =>
      let frame := { frame with cursor := frame.cursor.moved walker.stride }
      pure (.more { descent with frames := frame :: outer })
    | some child =>
      let directive ← walker.one ⟨child, frame.cursor, frame.parent⟩ descent.lineage
      let walked := descent.walked + 1
      if directive.action = .action .exit then leave child walked
      else
        let cursor :=
          if directive.index = .null then frame.cursor.moved walker.stride else directive.index
        let frames := { frame with cursor } :: outer
        let descent ← walker.enter { descent with frames, walked } child directive
        pure (.more descent)

/-- What a run comes to: an ending or a failure, and the world it leaves. -/
abbrev Outcome (σ : Type) := EStateM.Result Fault (World σ) Ending

/-- The loop in `_walk` for at most `fuel` turns; `none` if the walk is not over
    by then. -/
def run (walker : Walker σ) : Nat → Step → World σ → Option (Outcome σ)
  | _, .done ending, world => some (.ok ending world)
  | 0, .more _, _ => none
  | fuel + 1, .more descent, world =>
    match walker.step descent world with
    | .ok step world => walker.run fuel step world
    | .error fault world => some (.error fault world)

/-- Walks a tree in at most `fuel` turns after the root: `_walk`. -/
def walk (walker : Walker σ) (fuel : Nat) (tree : Value) (world : World σ) : Option (Outcome σ) :=
  match walker.start tree world with
  | .ok step world => walker.run fuel step world
  | .error fault world => some (.error fault world)

end Walker

end Lineage
