import Lineage.Proofs.Walk.Turn

namespace Lineage

/-- Why a recursive walk stops short: the visitor ended it at a node, something
    failed, or the limit on the depth of the recursion was met. -/
inductive Halt where
  | exited (place : Place)
  | failed (fault : Fault)
  | unfinished

/-- A part of a recursive walk. It may stop the walk at every level at once;
    the world is left as it was by then. -/
abbrev Visiting (σ : Type) := EStateM Halt (World σ)

/-- An activity within a recursive walk, which fails if the activity does. -/
def Visiting.ofAct {σ α : Type} (act : Act σ α) : Visiting σ α := fun world =>
  match act world with
  | .ok a world => .ok a world
  | .error fault world => .error (.failed fault) world

namespace Walker

variable {σ : Type}

/-- Visits a node and then, unless it has none or they are left out, its
    children, with the node as their nearest ancestor. Returns the index at
    which the siblings are taken up, null if that is the next one. -/
def visitOne (walker : Walker σ) (visitChildren : List Value → Value → Value → Visiting σ Unit)
    (lineage : List Value) (place : Place) : Visiting σ Value := do
  let directive ← Visiting.ofAct (walker.one place lineage)
  if directive.action = .action .exit then throw (.exited place)
  let store ← Visiting.ofAct Act.store
  let children := store.children place.node
  unless children = .null ∨ directive.action = .action .skip do
    let cursor ← Visiting.ofAct (Act.ofExcept (walker.startOf store children))
    visitChildren (place.node :: lineage) place.node cursor
  return directive.index

/-- Visits the children of a node from a cursor on. They are read anew for each
    of them, and the cursor is moved only when a child is done with. -/
def visitChildren (walker : Walker σ) : Nat → List Value → Value → Value → Visiting σ Unit
  | 0, _, _, _ => throw .unfinished
  | limit + 1, lineage, parent, cursor => do
    let store ← Visiting.ofAct Act.store
    match ← Visiting.ofAct (Act.ofExcept (store.childAt (store.children parent) cursor)) with
    | none => return
    | some .null => walker.visitChildren limit lineage parent (cursor.moved walker.stride)
    | some child =>
      let index ← walker.visitOne (walker.visitChildren limit) lineage ⟨child, cursor, parent⟩
      walker.visitChildren limit lineage parent (walker.cursorAfter cursor index)

/-- Walks a tree by recursion from its root, which has no ancestors. It tells
    nothing of where it starts and ends. -/
def walkRecursively (walker : Walker σ) (limit : Nat) (tree : Value) : Visiting σ Unit := do
  let _ ← walker.visitOne (walker.visitChildren limit) [] { node := tree }

section Equations

variable (walker : Walker σ) (loop : List Value → Value → Value → Visiting σ Unit)
  (lineage : List Value) (place : Place) {world : World σ}

theorem visitOne_fails {fault : Fault} {later : World σ}
    (hone : walker.one place lineage world = .error fault later) :
    walker.visitOne loop lineage place world = .error (.failed fault) later := by
  simp [visitOne, Visiting.ofAct, bind, EStateM.bind, hone]

variable {directive : Directive} {later : World σ}
  (hone : walker.one place lineage world = .ok directive later)

include hone

theorem visitOne_exits (hexit : directive.action = .action .exit) :
    walker.visitOne loop lineage place world = .error (.exited place) later := by
  simp only [visitOne, Visiting.ofAct, bind, EStateM.bind, hone, hexit, if_true]
  rfl

variable (hexit : directive.action ≠ .action .exit)

include hexit

/-- A node that is not entered hands back its directive's index. -/
theorem visitOne_stays
    (hstay : later.store.children place.node = .null ∨ directive.action = .action .skip) :
    walker.visitOne loop lineage place world = .ok directive.index later := by
  simp [visitOne, Visiting.ofAct, Act.store, bind, EStateM.bind, pure, EStateM.pure, hone, hexit,
    hstay]

variable
  (henter : ¬ (later.store.children place.node = .null ∨ directive.action = .action .skip))

include henter

theorem visitOne_enter_fails {fault : Fault}
    (hstart : walker.startOf later.store (later.store.children place.node) = .error fault) :
    walker.visitOne loop lineage place world = .error (.failed fault) later := by
  simp [visitOne, Visiting.ofAct, Act.store, Act.ofExcept, bind, EStateM.bind, pure, hone, hexit,
    henter, hstart]

/-- A node that is entered hands back its directive's index once its children
    are done with. -/
theorem visitOne_descends {cursor : Value}
    (hstart : walker.startOf later.store (later.store.children place.node) = .ok cursor) :
    walker.visitOne loop lineage place world =
      (loop (place.node :: lineage) place.node cursor >>= fun _ => pure directive.index)
        later := by
  simp [visitOne, Visiting.ofAct, Act.store, Act.ofExcept, bind, EStateM.bind, pure,
    EStateM.pure, hone, hexit, henter, hstart]

end Equations

section Children

variable (walker : Walker σ) {lineage : List Value} {parent cursor : Value} {limit : Nat}
  {world : World σ}

theorem visitChildren_fails {fault : Fault}
    (hchild : world.store.childAt (world.store.children parent) cursor = .error fault) :
    walker.visitChildren (limit + 1) lineage parent cursor world =
      .error (.failed fault) world := by
  simp [visitChildren, Visiting.ofAct, Act.store, Act.ofExcept, bind, EStateM.bind, hchild]

theorem visitChildren_ends
    (hchild : world.store.childAt (world.store.children parent) cursor = .ok none) :
    walker.visitChildren (limit + 1) lineage parent cursor world = .ok () world := by
  simp [visitChildren, Visiting.ofAct, Act.store, Act.ofExcept, bind, EStateM.bind, pure,
    EStateM.pure, hchild]

theorem visitChildren_passes
    (hchild : world.store.childAt (world.store.children parent) cursor = .ok (some .null)) :
    walker.visitChildren (limit + 1) lineage parent cursor world =
      walker.visitChildren limit lineage parent (cursor.moved walker.stride) world := by
  simp [visitChildren, Visiting.ofAct, Act.store, Act.ofExcept, bind, EStateM.bind, hchild]

/-- Any other child is visited before those that follow it. -/
theorem visitChildren_child {child : Value} (hnode : child ≠ .null)
    (hchild : world.store.childAt (world.store.children parent) cursor = .ok (some child)) :
    walker.visitChildren (limit + 1) lineage parent cursor world =
      (walker.visitOne (walker.visitChildren limit) lineage ⟨child, cursor, parent⟩ >>= fun index =>
        walker.visitChildren limit lineage parent (walker.cursorAfter cursor index)) world := by
  simp [visitChildren, Visiting.ofAct, Act.store, Act.ofExcept, bind, EStateM.bind, hchild]

end Children

section Whole

variable (walker : Walker σ) {limit : Nat} {tree : Value} {world later : World σ}

theorem walkRecursively_ok {index : Value}
    (hroot : walker.visitOne (walker.visitChildren limit) [] { node := tree } world =
      .ok index later) : walker.walkRecursively limit tree world = .ok () later := by
  simp only [walkRecursively, bind, EStateM.bind, hroot]
  rfl

theorem walkRecursively_halts {halt : Halt}
    (hroot : walker.visitOne (walker.visitChildren limit) [] { node := tree } world =
      .error halt later) : walker.walkRecursively limit tree world = .error halt later := by
  simp only [walkRecursively, bind, EStateM.bind, hroot]

end Whole

end Walker

end Lineage
