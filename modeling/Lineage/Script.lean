import Lineage.Children
import Lineage.Edit
import Lineage.Store.Equal
import Lineage.World

/-!
Tests and visitors given as data: predicates on places, and visitors that
follow rules with conditions, edits of the tree and answers.

This stands apart from the model. It plays the caller when the model is run on
recorded inputs, whose tests and visitors are written as such data; nothing that
is proved depends on it.
-/

namespace Lineage.Script

/-- How a node is named in events: by its `id`, else by its type. A value that
    is no node is named by itself. -/
def brief (store : Store) (node : Value) : Value :=
  match store.cell? node with
  | some (.mapping fields) | some (.element fields) =>
    match fields.lookup "id" with
    | none | some .null => (fields.lookup "type").getD .null
    | some id => id
  | _ => node

/-- What the script was called for. -/
inductive Event where
  | asked (predicate : String) (node index parent : Value)
  | metWithin (node : Value) (ancestors : List Value)
  | metBelow (node : Value) (depth : Nat)
  | metAt (node index parent : Value)

/-- The events so far, newest first, the calls of the visitor, and how often
    each rule was used. -/
structure State where
  events : List Event
  calls : Nat
  used : List Nat

/-- A failure that a script brings about. -/
structure Raise where
  category : Category
  message : String

/-- The failure itself. -/
def Raise.fault (raise : Raise) : Fault := .of (.raised raise.category raise.message)

/-- What a predicate answers. -/
inductive Question where
  | constant (answer : Value)
  | indexAbove (bound : Value)
  | indexEven
  | parentType (type : Value)
  | isRoot
  | property (key : String)
  | failsOn (type : Value) (raise : Raise)

/-- A predicate; one with a name reports its calls. -/
structure Predicate where
  name : Option String
  question : Question

/-- Whether a value is above another one. -/
def isAbove (store : Store) (a b : Value) : Except Fault Bool :=
  let verdict :=
    match a, b with
    | .scalar x, .scalar y => x.above? y
    | _, _ => none
  match verdict with
  | some verdict => pure verdict
  | none => throw (.of (.unordered ">" (store.kind a) (store.kind b)))

/-- Whether a value is an even number. -/
def isEven : Value → Bool
  | .int n => n % 2 == 0
  | .bool b => !b
  | .float x => x.toInt?.any (· % 2 == 0)
  | _ => false

/-- The answer of a predicate at a place. -/
def Question.answer (store : Store) (place : Place) : Question → Except Fault Value
  | .constant answer => pure answer
  | .indexAbove bound =>
    if place.index = .null then pure (.bool false)
    else return .bool (← isAbove store place.index bound)
  | .indexEven => pure (.bool (isEven place.index))
  | .parentType type =>
    if place.parent = .null then pure (.bool false)
    else return .bool (← store.equal (store.typeOf place.parent) type)
  | .isRoot => pure (.bool (place.index = .null ∧ place.parent = .null))
  | .property key => pure ((store.property? place.node key).getD .null)
  | .failsOn type raise => do
    if ← store.equal (store.typeOf place.node) type then throw raise.fault else pure (.bool true)

/-- A value that an edit brings in: the visited node itself, new data, or a new
    container that may hold the visited node. -/
inductive Graft where
  | visited
  | fresh (datum : Datum)
  | list (items : List Graft)
  | mapping (fields : List (String × Graft))
  deriving Inhabited

/-- A node that an edit is made on. -/
inductive Target where
  | parent
  | visited
  | root
  deriving DecidableEq, Repr

/-- A change to a node or to its list of children. -/
inductive Edit where
  | set (key : String) (value : Graft)
  | setChildren (children : Graft)
  | eraseChildren
  | append (node : Graft)
  | insert (place : Int) (node : Graft)
  | replace (place : Int) (node : Graft)
  | remove (place : Int)
  | truncate (place : Int)
  | reverse

/-- What a rule asks of a call. -/
inductive Condition where
  | call (number : Value)
  | depth (depth : Value)
  | index (index : Value)
  | property (key : String) (value : Value)

/-- What a rule ends a call with. -/
inductive Reply where
  | answer (value : Value)
  | raise (raise : Raise)

/-- A rule of a visitor: used at most `times` times, on calls that meet all the
    conditions. -/
structure Rule where
  conditions : List Condition
  times : Option Nat
  edits : List (Target × Edit)
  reply : Reply

/-- A visitor that follows the first rule that applies. `root` is the tree that
    is walked; new nodes are elements if `elements` says so. -/
structure Visitor where
  rules : List Rule
  root : Value
  elements : Bool
  depthOnly : Bool

/-- What a visitor knows of a call. -/
structure Scene where
  node : Value
  index : Value
  parent : Value
  depth : Nat
  number : Nat

/-- What is known of a call with a number. The nearest ancestor is the parent. -/
def Scene.ofCall (number : Nat) : Call → Scene
  | .atPlace place => ⟨place.node, place.index, place.parent, 0, number⟩
  | .inLineage node lineage =>
    ⟨node, .null, (lineage.head?).getD .null, lineage.length, number⟩

/-- Whether a call meets a condition. A property that is absent is null. -/
def Condition.holds (store : Store) (scene : Scene) : Condition → Except Fault Bool
  | .call expected => store.equal (.int scene.number) expected
  | .depth expected => store.equal (.int scene.depth) expected
  | .index expected => store.equal scene.index expected
  | .property key value => store.equal ((store.property? scene.node key).getD .null) value

/-- Whether all the conditions hold, decided from the left. -/
def allHold (store : Store) (scene : Scene) : List Condition → Except Fault Bool
  | [] => pure true
  | condition :: rest => do
    if ← condition.holds store scene then allHold store scene rest else pure false

/-- Whether a rule used so often may be used again. -/
def isLeft (times : Option Nat) (used : Nat) : Bool :=
  match times with
  | some times => used < times
  | none => true

/-- The first rule that is not used up and applies, with its number. -/
def applicable (store : Store) (scene : Scene) (used : List Nat) :
    Nat → List Rule → Except Fault (Option (Nat × Rule))
  | _, [] => pure none
  | n, rule :: rest => do
    if isLeft rule.times (used[n]?.getD 0) then
      if ← allHold store scene rule.conditions then pure (some (n, rule))
      else applicable store scene used (n + 1) rest
    else applicable store scene used (n + 1) rest

mutual

/-- Puts a graft into the store, every new container at a new address. -/
def Graft.build (visited : Value) : Graft → Store → Value × Store
  | .visited, store => (visited, store)
  | .fresh datum, store => datum.build store
  | .list items, store =>
    let (values, store) := Graft.buildItems visited items store
    store.alloc (.list values)
  | .mapping fields, store =>
    let (values, store) := Graft.buildFields visited fields store
    store.alloc (.mapping values)

/-- Puts the items of a list into the store from left to right. -/
def Graft.buildItems (visited : Value) : List Graft → Store → List Value × Store
  | [], store => ([], store)
  | item :: rest, store =>
    let (value, store) := item.build visited store
    let (values, store) := Graft.buildItems visited rest store
    (value :: values, store)

/-- Puts the fields of a mapping into the store from left to right. -/
def Graft.buildFields (visited : Value) : List (String × Graft) → Store → Fields × Store
  | [], store => ([], store)
  | (key, item) :: rest, store =>
    let (value, store) := item.build visited store
    let (values, store) := Graft.buildFields visited rest store
    ((key, value) :: values, store)

end

/-- Builds a node in the style of the tree. The visited node stays as it is. -/
def plant (elements : Bool) (visited : Value) (graft : Graft) (store : Store) : Value × Store :=
  let (value, store) := graft.build visited store
  (value, if elements && value ≠ visited then store.toElements value else store)

/-- Builds children, whose members are nodes if they are a list. -/
def plantChildren (elements : Bool) (visited : Value) (graft : Graft) (store : Store) :
    Value × Store :=
  let (value, store) := graft.build visited store
  match store.cell? value with
  | some (.list items) =>
    (value, if elements then items.foldl (fun store node => store.toElements node) store else store)
  | _ => (value, store)

/-- Makes an edit on a node. -/
def Edit.apply (elements : Bool) (visited target : Value) (store : Store) : Edit → Store
  | .set key value =>
    let (value, store) := value.build visited store
    store.setProperty target key value
  | .setChildren children =>
    let (value, store) := plantChildren elements visited children store
    store.setProperty target "children" value
  | .eraseChildren => store.eraseProperty target "children"
  | .append node =>
    let (value, store) := plant elements visited node store
    store.updateChildren target (· ++ [value])
  | .insert place node =>
    let (value, store) := plant elements visited node store
    store.updateChildren target (insertedAt place value)
  | .replace place node =>
    let (value, store) := plant elements visited node store
    store.updateChildren target (replacedAt place value)
  | .remove place => store.updateChildren target (removedAt place)
  | .truncate place => store.updateChildren target (truncatedAt place)
  | .reverse => store.updateChildren target List.reverse

/-- The node that an edit is made on. -/
def Scene.target (visitor : Visitor) (scene : Scene) : Target → Value
  | .parent => scene.parent
  | .visited => scene.node
  | .root => visitor.root

/-- Makes the edits of a rule in order. -/
def applyEdits (visitor : Visitor) (scene : Scene) (edits : List (Target × Edit)) (store : Store) :
    Store :=
  edits.foldl (fun store (target, edit) =>
    edit.apply visitor.elements scene.node (scene.target visitor target) store) store

/-- The event of a call of the visitor. -/
def Visitor.event (visitor : Visitor) (store : Store) : Call → Event
  | .atPlace place => .metAt (brief store place.node) place.index (brief store place.parent)
  | .inLineage node lineage =>
    if visitor.depthOnly then .metBelow (brief store node) lineage.length
    else .metWithin (brief store node) (lineage.reverse.map (brief store))

/-- A function of the script. -/
inductive Function where
  | predicate (predicate : Predicate)
  | visitor (visitor : Visitor)

/-- Calls a predicate: it reports the call if it has a name, and answers. -/
def Predicate.call (predicate : Predicate) (place : Place) : EStateM Fault (Store × State) Value :=
  fun (store, state) =>
    let events :=
      match predicate.name with
      | some name => [.asked name (brief store place.node) place.index (brief store place.parent)]
      | none => []
    let state := { state with events := events ++ state.events }
    match predicate.question.answer store place with
    | .ok value => .ok value (store, state)
    | .error fault => .error fault (store, state)

/-- Calls a visitor: it reports the call and follows the first rule that applies. -/
def Visitor.call (visitor : Visitor) (call : Call) : EStateM Fault (Store × State) Value :=
  fun (store, state) =>
    let number := state.calls + 1
    let state := { state with events := visitor.event store call :: state.events, calls := number }
    let scene := Scene.ofCall number call
    match applicable store scene state.used 0 visitor.rules with
    | .error fault => .error fault (store, state)
    | .ok none => .ok .null (store, state)
    | .ok (some (n, rule)) =>
      let used := (List.range (max state.used.length (n + 1))).map fun k =>
        (state.used[k]?.getD 0) + (if k = n then 1 else 0)
      let state := { state with used }
      let store := applyEdits visitor scene rule.edits store
      match rule.reply with
      | .answer value => .ok value (store, state)
      | .raise raise => .error raise.fault (store, state)

/-- The place that a call of a predicate is about. -/
def placeOf : Call → Place
  | .atPlace place => place
  | .inLineage node _ => { node }

/-- The functions of a script by their numbers. -/
def host (functions : Array Function) : Host State := fun id call =>
  match functions[id]? with
  | some (.predicate predicate) => predicate.call (placeOf call)
  | some (.visitor visitor) => visitor.call call
  | none => pure .null

end Lineage.Script
