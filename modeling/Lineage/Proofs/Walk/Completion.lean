import Lineage.Proofs.Walk.CallForms
import Lineage.Proofs.Walk.Preorder

namespace Lineage.Walker

variable {σ : Type}

/-- Visiting a node comes to an end if the recursion may go deep enough. -/
def Completes (walker : Walker σ) (lineage : List Value) (place : Place) (world : World σ)
    (index : Value) (later : World σ) : Prop :=
  ∃ bound, ∀ limit, bound ≤ limit →
    walker.visitOne (walker.visitChildren limit) lineage place world = .ok index later

/-- Visiting the children of a node gets from one cursor to another, whatever
    comes after that. -/
def Sweeps (walker : Walker σ) (lineage : List Value) (parent : Value) (cursor : Int)
    (world : World σ) (next : Int) (later : World σ) : Prop :=
  ∃ bound turns, ∀ limit, bound ≤ limit →
    walker.visitChildren (limit + turns) lineage parent (.int cursor) world =
      walker.visitChildren limit lineage parent (.int next) later

section Rules

variable {walker : Walker σ} {lineage : List Value} {parent : Value} {cursor next : Int}
  {world middle later : World σ}

theorem Sweeps.refl (walker : Walker σ) (lineage : List Value) (parent : Value) (cursor : Int)
    (world : World σ) : walker.Sweeps lineage parent cursor world cursor world :=
  ⟨0, 0, fun _ _ => rfl⟩

theorem Sweeps.trans {between : Int}
    (hfirst : walker.Sweeps lineage parent cursor world between middle)
    (hsecond : walker.Sweeps lineage parent between middle next later) :
    walker.Sweeps lineage parent cursor world next later := by
  obtain ⟨first, turns, hfirst⟩ := hfirst
  obtain ⟨second, more, hsecond⟩ := hsecond
  refine ⟨max first second, more + turns, ?_⟩
  intro limit hlimit
  rw [← Nat.add_assoc, hfirst (limit + more) (by omega), hsecond limit (by omega)]

/-- A gap is passed over. -/
theorem sweeps_gap
    (hchild : world.store.childAt (world.store.children parent) (.int cursor) = .ok (some .null)) :
    walker.Sweeps lineage parent cursor world (cursor + walker.stride) world :=
  ⟨0, 1, fun _ _ => walker.visitChildren_passes hchild⟩

/-- A child is visited, and its answer settles where the cursor goes. -/
theorem Completes.sweeps {child index : Value} (hnode : child ≠ .null)
    (hchild : world.store.childAt (world.store.children parent) (.int cursor) = .ok (some child))
    (hcompletes : walker.Completes lineage ⟨child, .int cursor, parent⟩ world index later)
    (hnext : walker.cursorAfter (.int cursor) index = .int next) :
    walker.Sweeps lineage parent cursor world next later := by
  obtain ⟨bound, hcompletes⟩ := hcompletes
  refine ⟨bound, 1, ?_⟩
  intro limit hlimit
  rw [walker.visitChildren_child hnode hchild]
  simp only [bind, EStateM.bind, hcompletes limit hlimit, hnext]

variable {place : Place} {directive : Directive} {entered : World σ}

theorem completes_of_stays (hone : walker.one place lineage world = .ok directive later)
    (hexit : directive.action ≠ .action .exit)
    (hstay : later.store.children place.node = .null ∨ directive.action = .action .skip) :
    walker.Completes lineage place world directive.index later :=
  ⟨0, fun limit _ => walker.visitOne_stays (walker.visitChildren limit) lineage place hone hexit
    hstay⟩

/-- A node that is entered is done with once the cursor is outside of its
    children. -/
theorem Sweeps.completes (hone : walker.one place lineage world = .ok directive entered)
    (hexit : directive.action ≠ .action .exit) (hskip : directive.action ≠ .action .skip)
    (hchildren : entered.store.children place.node ≠ .null)
    (hstart : walker.startOf entered.store (entered.store.children place.node) = .ok (.int cursor))
    (hsweeps : walker.Sweeps (place.node :: lineage) place.node cursor entered next later)
    (hend : later.store.childAt (later.store.children place.node) (.int next) = .ok none) :
    walker.Completes lineage place world directive.index later := by
  obtain ⟨bound, turns, hsweeps⟩ := hsweeps
  refine ⟨bound + turns + 1, ?_⟩
  intro limit hlimit
  obtain ⟨rest, rfl⟩ : ∃ rest, limit = rest + 1 + turns := ⟨limit - 1 - turns, by omega⟩
  have henter : ¬(entered.store.children place.node = .null ∨ directive.action = .action .skip) :=
    fun hstay => hstay.elim hchildren hskip
  rw [walker.visitOne_descends _ lineage place hone hexit henter hstart]
  have hrest := hsweeps (rest + 1) (by omega)
  rw [walker.visitChildren_ends hend] at hrest
  simp only [bind, EStateM.bind, hrest]
  rfl

end Rules

/-- A walk is finished once the root is done with. -/
theorem walk_of_completes {walker : Walker σ} {tree index : Value} {world opened later : World σ}
    (hannounce : walker.announce tree world = .ok () opened)
    (hcompletes : walker.Completes [] { node := tree } opened index later) :
    ∃ fuel message, ∀ more,
      walker.walk (fuel + more) tree world = some (.ok .finished (later.told message)) := by
  obtain ⟨limit, hlimit⟩ := hcompletes
  have hrecursion : walker.walkRecursively limit tree opened = .ok () later := by
    simp only [walkRecursively, bind, EStateM.bind, hlimit limit (Nat.le_refl limit)]
    rfl
  obtain ⟨fuel, message, hwalk⟩ := walk_of_recursion hannounce hrecursion
  exact ⟨fuel, message, fun more => walk_mono hwalk⟩

/-- The cursor before a part of the children, in the direction of a walk. -/
def entryOf (reverse : Bool) (start count : Nat) : Int :=
  if reverse then (start + count : Int) - 1 else start

/-- The cursor after a part of the children that has `count` members by then. -/
def exitOf (reverse : Bool) (start count : Nat) : Int :=
  if reverse then (start : Int) - 1 else start + count

theorem entryOf_one (reverse : Bool) (start : Nat) : entryOf reverse start 1 = start := by
  cases reverse <;> simp [entryOf]

/-- Beyond all of the children there is none. -/
theorem childAt_exitOf {store : Store} {children : Value} {items : List Value}
    (hlist : store.cell? children = some (.list items)) (reverse : Bool) :
    store.childAt children (.int (exitOf reverse 0 items.length)) = .ok none := by
  refine Store.childAt_list_outside hlist ?_
  cases reverse <;> simp [exitOf]

section Everywhere

variable (host : Host σ) (function : Nat) (manner : Manner) (reverse annotate : Bool)

/-- The walk that has no test and calls a function for every node. -/
def everywhere : Walker σ :=
  Request.walker ⟨.null, .function function, reverse⟩ host manner annotate .anything

theorem visit_eq_walk (reverse : Value) (fuel : Nat) (tree : Value) (world : World σ) :
    Lineage.visit host manner ⟨.null, .function function, reverse⟩ annotate fuel tree world =
      (everywhere host function manner (world.store.isTrue reverse) annotate).walk fuel tree
        world :=
  rfl

theorem startOf_everywhere {store : Store} {children : Value} {items : List Value}
    (hlist : store.cell? children = some (.list items)) :
    (everywhere host function manner reverse annotate).startOf store children =
      .ok (.int (entryOf reverse 0 items.length)) := by
  rw [startOf_list hlist]
  cases reverse <;> simp [everywhere, Request.walker, entryOf]

/-- A child that asks for no other place is followed by the next. -/
theorem cursorAfter_everywhere (start : Nat) :
    (everywhere host function manner reverse annotate).cursorAfter (.int start) .null =
      .int (exitOf reverse start 1) := by
  cases reverse <;> rfl

variable {host function manner} {place : Place} {lineage : List Value} {world : World σ}
  {answer : Value} {store : Store} {user : σ}

/-- Dealing with a node comes down to the call for it. -/
theorem one_everywhere
    (hcall : host function (manner.call place lineage) (world.store, world.user) =
      .ok answer (store, user))
    (hsettles : store.Settles answer) :
    ∃ journal,
      (everywhere host function manner reverse annotate).one place lineage world =
        .ok ((Directive.read store answer).getD {}) ⟨store, journal, user⟩ ∧
      visitsOf journal = (place, lineage) :: visitsOf world.journal := by
  let offered : World σ := { world with journal := .offered place :: world.journal }
  let visited : World σ := ⟨store, .visited place lineage :: offered.journal, user⟩
  let walker : Walker σ := everywhere host function manner reverse annotate
  have hvisit : walker.visit place lineage
      { offered with journal := .visited place lineage :: offered.journal } =
        .ok answer visited := by
    have hcalled : Act.call host function (manner.call place lineage)
        { offered with journal := .visited place lineage :: offered.journal } =
          .ok answer visited := by
      simp only [Act.call, offered, hcall, visited]
    cases manner <;> exact hcalled
  obtain ⟨journal, hjournal, hsettled⟩ := @ofAnswer_settles σ answer visited hsettles
  refine ⟨journal, ?_, by rw [hjournal]; simp [visitsOf, visited, offered]⟩
  apply one_of_consult
  rw [@consult_called _ walker _ _ world offered visited _ rfl hvisit]
  exact hsettled

end Everywhere

end Lineage.Walker
