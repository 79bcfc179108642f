import Lineage.Edit
import Lineage.Proofs.NodeForms.PlantedData

/-!
What the functions of a caller do to a tree, told without regard to the form of
its nodes: they see the tree as mappings, change it at positions, and answer
with data.
-/

namespace Lineage

/-- The nodes that a call is made with, the node that it is about first. -/
def Call.nodes : Call → List Value
  | .atPlace place => [place.node, place.parent]
  | .inLineage node lineage => node :: lineage

/-- The cell without regard to the form of nodes. -/
def Cell.plain : Cell → Cell
  | .element fields => .mapping fields
  | cell => cell

/-- The store as it looks if all nodes are mappings. -/
def Store.plain (store : Store) : Store :=
  ⟨store.cells.map Cell.plain⟩

/-- The child of a node at a place, null if there is none. -/
def Store.childOf (store : Store) (node : Value) (place : Nat) : Value :=
  ((store.members? (store.children node)).bind (·[place]?)).getD .null

namespace Conduct

/-- Where a node stands: below the root of the tree or below one of the nodes of
    a call, which follow the root, by a path of places among children. -/
structure Position where
  start : Nat
  path : List Nat

/-- The node that stands there now, null if there is none. -/
def Position.node (store : Store) (nodes : List Value) (position : Position) : Value :=
  position.path.foldl store.childOf (nodes[position.start]?.getD .null)

/-- A child to be: a node that stands somewhere already, or a new one. -/
inductive Member where
  | standing (position : Position)
  | fresh (datum : Datum)

/-- A change to a node: a property is set to new data or removed, the children
    are replaced by a new list, or the list of children is changed in place. -/
inductive Mutation where
  | set (target : Position) (key : String) (datum : Datum)
  | erase (target : Position) (key : String)
  | renew (target : Position) (members : List Member)
  | arrange (target : Position) (members : List Member)

/-- What a call ends with: an answer that is data, an answer that is a directive,
    or a failure. -/
inductive Reply where
  | data (datum : Datum)
  | directive (action index : Datum)
  | failure (fault : Fault)

/-- What is done in a call: changes, one after the other, and the reply. -/
structure Deed (σ : Type) where
  mutations : List Mutation
  reply : Reply
  user : σ

section Deeds

variable (elements : Bool) (nodes : List Value)

/-- Puts a child into the store. New nodes are elements if `elements` says so. -/
def Member.plant : Member → Store → Value × Store
  | .standing position, store => (position.node store nodes, store)
  | .fresh datum, store =>
    let (value, store) := datum.build store
    (value, if elements then store.toElements value else store)

/-- Puts children into the store from left to right. -/
def Member.plantAll : List Member → Store → List Value × Store
  | [], store => ([], store)
  | member :: rest, store =>
    let (value, store) := member.plant elements nodes store
    let (values, store) := Member.plantAll rest store
    (value :: values, store)

/-- Makes a change. -/
def Mutation.apply (store : Store) : Mutation → Store
  | .set target key datum =>
    let (value, later) := datum.build store
    later.setProperty (target.node store nodes) key value
  | .erase target key => store.eraseProperty (target.node store nodes) key
  | .renew target members =>
    let (values, later) := Member.plantAll elements nodes members store
    let (row, later) := later.alloc (.list values)
    later.setProperty (target.node store nodes) "children" row
  | .arrange target members =>
    let (values, later) := Member.plantAll elements nodes members store
    later.updateChildren (target.node store nodes) fun _ => values

end Deeds

/-- Puts a reply into the store. -/
def Reply.give {σ : Type} (store : Store) (user : σ) :
    Reply → EStateM.Result Fault (Store × σ) Value
  | .data datum =>
    let (value, store) := datum.build store
    .ok value (store, user)
  | .directive action index =>
    let (action, store) := action.build store
    let (index, store) := index.build store
    let (value, store) := store.alloc (.directive ⟨action, index⟩)
    .ok value (store, user)
  | .failure fault => .error fault (store, user)

end Conduct

/-- The conduct of the functions of a caller: what each does when it is called,
    given the tree as mappings and the caller's own state. -/
abbrev Conduct (σ : Type) := Nat → Call → Store → σ → Conduct.Deed σ

/-- The functions of a caller that behave so in a tree with a form of nodes. -/
def Conduct.host {σ : Type} (conduct : Conduct σ) (elements : Bool) (root : Value) : Host σ :=
  fun function call (store, user) =>
    let deed := conduct function call store.plain user
    let store := deed.mutations.foldl
      (fun store mutation => mutation.apply elements (root :: call.nodes) store) store
    deed.reply.give store deed.user

theorem mem_setEntry {key : Scalar} {value : Value} {entries : Entries} {entry : Scalar × Value}
    (hentry : entry ∈ setEntry key value entries) :
    (entry.2 = value ∧ (entry.1 = key ∨ entry.1.equal key = true)) ∨ entry ∈ entries := by
  induction entries with
  | nil =>
    rw [List.mem_singleton.mp hentry]
    exact Or.inl ⟨rfl, Or.inl rfl⟩
  | cons first rest ih =>
    obtain ⟨other, found⟩ := first
    rw [setEntry] at hentry
    split at hentry
    · next hequal =>
      cases List.mem_cons.mp hentry with
      | inl hset =>
        rw [hset]
        exact Or.inl ⟨rfl, Or.inr hequal⟩
      | inr hrest => exact Or.inr (List.mem_cons_of_mem _ hrest)
    · cases List.mem_cons.mp hentry with
      | inl hfirst => exact Or.inr (hfirst ▸ List.mem_cons_self)
      | inr hrest => exact (ih hrest).imp_right (List.mem_cons_of_mem _)

theorem mem_setField {key : String} {value : Value} {fields : Fields} {field : String × Value}
    (hmem : field ∈ setField key value fields) : field = (key, value) ∨ field ∈ fields := by
  induction fields with
  | nil => exact Or.inl (List.mem_singleton.mp hmem)
  | cons first rest ih =>
    unfold setField at hmem
    split at hmem
    · next heq =>
      cases List.mem_cons.mp hmem with
      | inl hfirst => exact Or.inl (by rw [hfirst, heq])
      | inr hrest => exact Or.inr (List.mem_cons_of_mem _ hrest)
    · cases List.mem_cons.mp hmem with
      | inl hfirst => exact Or.inr (by rw [hfirst]; exact List.mem_cons_self)
      | inr hrest => exact (ih hrest).imp_right (List.mem_cons_of_mem _)

namespace Store

variable {roles : List Role} {first second : Store}

/-- A store looks the same in both forms to those who do not regard the form. -/
theorem Resembles.plain_eq (hresembles : first.Resembles second) : second.plain = first.plain := by
  unfold plain
  congr 1
  apply Array.ext_getElem?
  intro i
  rw [Array.getElem?_map, Array.getElem?_map]
  show (second.get? ⟨i⟩).map Cell.plain = (first.get? ⟨i⟩).map Cell.plain
  cases hresembles ⟨i⟩ with
  | inl hsame => rw [hsame]
  | inr hturned =>
    obtain ⟨fields, hfirst, hsecond⟩ := hturned
    rw [hfirst, hsecond]
    rfl

namespace Twins

variable (htwins : first.Twins roles second) {role : Role} {node value : Value}

include htwins

/-- A cell may be replaced in both forms by cells that fit its role. -/
theorem put {ref : Ref} {cell other : Cell} (hrole : roles[ref.address]? = some role)
    (hcells : other = cell ∨
      role = .node ∧ ∃ fields, cell = .mapping fields ∧ other = .element fields)
    (hfits : cell.Fits roles role) : (first.put ref cell).Twins roles (second.put ref other) := by
  have hold : ref.address < first.size := by
    rw [← htwins.cast.size]
    exact (List.getElem?_eq_some_iff.mp hrole).1
  have hother : ref.address < second.size := by rwa [htwins.size_eq]
  refine ⟨⟨?_, ?_⟩, ?_, ?_⟩
  · rw [htwins.cast.size]
    unfold Store.put size
    rw [Array.size_setIfInBounds]
  · intro place found part hget hpart
    rw [get?_put hold] at hget
    split at hget
    · next heq =>
      subst heq
      cases hget
      cases hrole.symm.trans hpart
      exact hfits
    · exact htwins.cast.fits place found part hget hpart
  · intro place
    unfold IsTurned
    rw [get?_put hold, get?_put hother]
    split
    · cases hcells with
      | inl hsame => exact Or.inl (by rw [hsame])
      | inr hturned =>
        obtain ⟨_, fields, rfl, rfl⟩ := hturned
        exact Or.inr ⟨fields, rfl, rfl⟩
    · exact htwins.resembles place
  · intro place hplace
    rw [get?_put hold, get?_put hother]
    split
    · next heq =>
      subst heq
      cases hcells with
      | inl hsame => rw [hsame]
      | inr hturned => exact (hplace (hrole.trans (congrArg some hturned.1))).elim
    · exact htwins.same place hplace

/-- The properties of a node may be changed in both forms. -/
theorem updateFields (hnode : node.Plays roles .node) {f : Fields → Fields}
    {g : Entries → Entries}
    (hfields : ∀ fields : Fields,
      (∀ field ∈ fields, field.2.Plays roles (Role.node.ofField field.1)) →
        ∀ field ∈ f fields, field.2.Plays roles (Role.node.ofField field.1))
    (hentries : ∀ entries : Entries,
      (∀ entry ∈ entries, entry.2.Plays roles (Role.node.ofEntry entry.1)) →
        ∀ entry ∈ g entries, entry.2.Plays roles (Role.node.ofEntry entry.1)) :
    (first.updateFields node f g).Twins roles (second.updateFields node f g) := by
  cases node with
  | scalar s => exact htwins
  | function g => exact htwins
  | cell ref =>
    have hchanged : ∀ {fields : Fields}, first.get? ref = some (.mapping fields) ∨
        first.get? ref = some (.element fields) →
          ∀ field ∈ f fields, field.2.Plays roles (Role.node.ofField field.1) := by
      intro fields hget
      apply hfields
      cases hget with
      | inl hmapping =>
        exact List.forall_mem_map.mp (htwins.cast.fits ref _ .node hmapping hnode)
      | inr helement =>
        exact List.forall_mem_map.mp (htwins.cast.fits ref _ .node helement hnode)
    unfold Store.updateFields
    dsimp only
    cases htwins.resembles ref with
    | inl hsame =>
      rw [hsame]
      split
      · next fields hget =>
        exact htwins.put hnode (Or.inl rfl) (List.forall_mem_map.mpr (hchanged (Or.inl hget)))
      · next entries hget =>
        refine htwins.put hnode (Or.inl rfl) (List.forall_mem_map.mpr (hentries _ ?_))
        exact List.forall_mem_map.mp (htwins.cast.fits ref _ .node hget hnode)
      · next fields hget =>
        exact htwins.put hnode (Or.inl rfl) (List.forall_mem_map.mpr (hchanged (Or.inr hget)))
      · exact htwins
    | inr hturned =>
      obtain ⟨fields, hfirst, hsecond⟩ := hturned
      simp only [hfirst, hsecond]
      exact htwins.put hnode (Or.inr ⟨rfl, _, rfl, rfl⟩)
        (List.forall_mem_map.mpr (hchanged (Or.inl hfirst)))

theorem setProperty (hnode : node.Plays roles .node) {key : String}
    (hvalue : value.Plays roles (Role.node.ofField key)) :
    (first.setProperty node key value).Twins roles (second.setProperty node key value) := by
  apply htwins.updateFields hnode
  · intro fields hfields field hfield
    cases mem_setField hfield with
    | inl hset =>
      rw [hset]
      exact hvalue
    | inr hkept => exact hfields field hkept
  · intro entries hentries entry hentry
    rcases mem_setEntry hentry with ⟨hset, hkey⟩ | hkept
    · have hname : entry.1.text? = some key := by
        rcases hkey with hkey | hequal
        · rw [hkey]
          rfl
        · exact Scalar.text?_of_equal hequal
      rw [hset, Role.ofEntry_node hname]
      exact hvalue
    · exact hentries entry hkept

theorem eraseProperty (hnode : node.Plays roles .node) (key : String) :
    (first.eraseProperty node key).Twins roles (second.eraseProperty node key) := by
  apply htwins.updateFields hnode
  · intro fields hfields field hfield
    exact hfields field (List.mem_filter.mp hfield).1
  · intro entries hentries entry hentry
    exact hentries entry (List.mem_filter.mp hentry).1

/-- A list of children may get other members in both forms. -/
theorem updateItems {list : Value} (hrow : list.Plays roles .row) {members : List Value}
    (hmembers : ∀ member ∈ members, member.Plays roles .node) :
    (first.updateItems list fun _ => members).Twins roles
      (second.updateItems list fun _ => members) := by
  cases list with
  | scalar s => exact htwins
  | function f => exact htwins
  | cell ref =>
    have hget : second.get? ref = first.get? ref := htwins.cell?_eq hrow (by simp)
    unfold Store.updateItems
    simp only [hget]
    split
    · exact htwins.put hrow (Or.inl rfl) (List.forall_mem_map.mpr hmembers)
    · exact htwins

theorem updateChildren (hnode : node.Plays roles .node) {members : List Value}
    (hmembers : ∀ member ∈ members, member.Plays roles .node) :
    (first.updateChildren node fun _ => members).Twins roles
      (second.updateChildren node fun _ => members) := by
  have hlists := htwins.updateItems (htwins.children_plays hnode) hmembers
  unfold Store.updateChildren
  rw [htwins.resembles.children_eq]
  cases node with
  | scalar s => exact htwins
  | function f => exact htwins
  | cell ref =>
    unfold cell?
    dsimp only
    cases htwins.resembles ref with
    | inl hsame =>
      rw [hsame]
      split
      · exact hlists
      · exact hlists
      · exact hlists
      · exact htwins
    | inr hturned =>
      obtain ⟨fields, hfirst, hsecond⟩ := hturned
      simp only [hfirst, hsecond]
      exact hlists

/-- A child is found at the same place in both forms, and is a node. -/
theorem childOf (hnode : node.Plays roles .node) (place : Nat) :
    second.childOf node place = first.childOf node place ∧
      (first.childOf node place).Plays roles .node := by
  have hrow := htwins.children_plays hnode
  unfold Store.childOf
  rw [htwins.resembles.children_eq, htwins.members?_eq hrow (by simp)]
  refine ⟨rfl, ?_⟩
  cases hmembers : first.members? (first.children node) with
  | none => trivial
  | some members =>
    show (members[place]?.getD .null).Plays roles .node
    cases hplace : members[place]? with
    | none => trivial
    | some child => exact htwins.members?_plays hrow hmembers _ (List.mem_of_getElem? hplace)

end Twins

end Store

namespace Conduct

variable {roles : List Role} {first second : Store} {nodes : List Value}
  (htwins : first.Twins roles second) (hnodes : ∀ node ∈ nodes, node.Plays roles .node)

include htwins hnodes

/-- The same node stands at a position in both forms. -/
theorem Position.node_eq (position : Position) :
    position.node second nodes = position.node first nodes ∧
      (position.node first nodes).Plays roles .node := by
  obtain ⟨start, path⟩ := position
  have hstart : (nodes[start]?.getD .null).Plays roles .node := by
    cases hget : nodes[start]? with
    | none => trivial
    | some node => exact hnodes node (List.mem_of_getElem? hget)
  unfold Position.node
  dsimp only
  generalize nodes[start]?.getD .null = node at hstart
  induction path generalizing node with
  | nil => exact ⟨rfl, hstart⟩
  | cons place rest ih =>
    obtain ⟨hsame, hchild⟩ := htwins.childOf hstart place
    rw [List.foldl_cons, List.foldl_cons, hsame]
    exact ih _ hchild

/-- The same children are put into both forms, new ones in the form of the tree. -/
theorem Member.plant_twins (member : Member) :
    ∃ later, roles <+: later ∧
      (member.plant false nodes first).2.Twins later (member.plant true nodes second).2 ∧
      (member.plant true nodes second).1 = (member.plant false nodes first).1 ∧
      (member.plant false nodes first).1.Plays later .node := by
  cases member with
  | standing position =>
    obtain ⟨hsame, hplays⟩ := position.node_eq htwins hnodes
    exact ⟨roles, List.prefix_refl _, htwins, hsame, hplays⟩
  | fresh datum =>
    obtain ⟨hbuilt, hsame, hplays⟩ := Store.Twins.cultivable.build datum .node htwins
    refine ⟨_, List.prefix_append _ _, ?_, hsame, hplays⟩
    have helements := Store.Twins.toElements hbuilt hplays
    rw [← hsame] at helements
    exact helements

theorem Member.plantAll_twins (members : List Member) :
    ∃ later, roles <+: later ∧
      (Member.plantAll false nodes members first).2.Twins later
        (Member.plantAll true nodes members second).2 ∧
      (Member.plantAll true nodes members second).1 =
        (Member.plantAll false nodes members first).1 ∧
      ∀ value ∈ (Member.plantAll false nodes members first).1, value.Plays later .node := by
  induction members generalizing roles first second with
  | nil => exact ⟨roles, List.prefix_refl _, htwins, rfl, fun value hvalue => by cases hvalue⟩
  | cons member rest ih =>
    obtain ⟨middle, hmiddle, hplanted, hsame, hplays⟩ := member.plant_twins htwins hnodes
    obtain ⟨later, hlater, hrest, hothers, hplay⟩ :=
      ih hplanted fun node hnode => (hnodes node hnode).mono hmiddle
    refine ⟨later, hmiddle.trans hlater, hrest, ?_, ?_⟩
    · simp only [Member.plantAll, hsame, hothers]
    · exact List.forall_mem_cons.mpr ⟨hplays.mono hlater, hplay⟩

/-- A change leaves the same tree in both forms. -/
theorem Mutation.apply_twins (mutation : Mutation) :
    ∃ later, roles <+: later ∧
      (mutation.apply false nodes first).Twins later (mutation.apply true nodes second) := by
  cases mutation with
  | set target key datum =>
    obtain ⟨hsame, hnode⟩ := target.node_eq htwins hnodes
    obtain ⟨hbuilt, hvalue, hplays⟩ :=
      Store.Twins.cultivable.build datum (Role.node.ofField key) htwins
    have hlater : roles <+: roles ++ datum.roles (Role.node.ofField key) := List.prefix_append _ _
    refine ⟨_, hlater, ?_⟩
    simp only [Mutation.apply, hsame, hvalue]
    exact Store.Twins.setProperty hbuilt (hnode.mono hlater) hplays
  | erase target key =>
    obtain ⟨hsame, hnode⟩ := target.node_eq htwins hnodes
    refine ⟨roles, List.prefix_refl _, ?_⟩
    simp only [Mutation.apply, hsame]
    exact htwins.eraseProperty hnode key
  | renew target members =>
    obtain ⟨hsame, hnode⟩ := target.node_eq htwins hnodes
    obtain ⟨middle, hmiddle, hplanted, hvalues, hplay⟩ :=
      Member.plantAll_twins htwins hnodes members
    have hlater : middle <+: middle ++ [Role.row] := List.prefix_append _ _
    refine ⟨_, hmiddle.trans hlater, ?_⟩
    simp only [Mutation.apply, hsame, hvalues, Store.alloc_eq hplanted.size_eq]
    have hfits : (Cell.list (Member.plantAll false nodes members first).1).Fits middle .row :=
      List.forall_mem_map.mpr hplay
    exact (hplanted.alloc hfits).setProperty (hnode.mono (hmiddle.trans hlater))
      (Store.alloc_plays hplanted.cast.size .row _)
  | arrange target members =>
    obtain ⟨hsame, hnode⟩ := target.node_eq htwins hnodes
    obtain ⟨later, hlater, hplanted, hvalues, hplay⟩ := Member.plantAll_twins htwins hnodes members
    refine ⟨later, hlater, ?_⟩
    simp only [Mutation.apply, hsame, hvalues]
    exact hplanted.updateChildren (hnode.mono hlater) hplay

theorem Mutation.applyAll_twins (mutations : List Mutation) :
    ∃ later, roles <+: later ∧
      (mutations.foldl (fun store mutation => mutation.apply false nodes store) first).Twins later
        (mutations.foldl (fun store mutation => mutation.apply true nodes store) second) := by
  induction mutations generalizing roles first second with
  | nil => exact ⟨roles, List.prefix_refl _, htwins⟩
  | cons mutation rest ih =>
    obtain ⟨middle, hmiddle, hchanged⟩ := mutation.apply_twins htwins hnodes
    obtain ⟨later, hlater, hrest⟩ :=
      ih hchanged fun node hnode => (hnodes node hnode).mono hmiddle
    exact ⟨later, hmiddle.trans hlater, hrest⟩

end Conduct

section Responses

variable {σ : Type}

/-- What a function of the caller comes to in the two forms of a tree: the same
    answer, which is data, or the same failure. Its state is the same, and so is
    the tree that it leaves, in two forms. -/
inductive Responds (roles : List Role) : EStateM.Result Fault (Store × σ) Value →
    EStateM.Result Fault (Store × σ) Value → Prop where
  | ok {later : List Role} {first second : Store} {user : σ} {answer : Value}
      (hlater : roles <+: later) (htwins : first.Twins later second)
      (hanswer : answer.Plays later .data) :
      Responds roles (.ok answer (first, user)) (.ok answer (second, user))
  | error {later : List Role} {first second : Store} {user : σ} {fault : Fault}
      (hlater : roles <+: later) (htwins : first.Twins later second) :
      Responds roles (.error fault (first, user)) (.error fault (second, user))

theorem Responds.mono {earlier roles : List Role}
    {mine other : EStateM.Result Fault (Store × σ) Value} (hresponds : Responds roles mine other)
    (hroles : earlier <+: roles) : Responds earlier mine other := by
  cases hresponds with
  | ok hlater htwins hanswer => exact .ok (hroles.trans hlater) htwins hanswer
  | error hlater htwins => exact .error (hroles.trans hlater) htwins

/-- The functions of two callers do the same, each in its form of the tree. -/
def Corresponds (roles : List Role) (host rival : Host σ) : Prop :=
  ∀ later first second user function call, roles <+: later → first.Twins later second →
    (∀ node ∈ Call.nodes call, node.Plays later .node) →
      Responds later (host function call (first, user)) (rival function call (second, user))

theorem Corresponds.mono {roles later : List Role} {host rival : Host σ}
    (hhosts : Corresponds roles host rival) (hlater : roles <+: later) :
    Corresponds later host rival :=
  fun last first second user function call hlast =>
    hhosts last first second user function call (hlater.trans hlast)

theorem Conduct.Reply.give_responds {roles : List Role} {first second : Store}
    (htwins : first.Twins roles second) (user : σ) (reply : Reply) :
    Responds roles (reply.give first user) (reply.give second user) := by
  cases reply with
  | data datum =>
    obtain ⟨hbuilt, hsame, hplays⟩ := Store.Twins.cultivable.build datum .data htwins
    simp only [Reply.give, hsame]
    exact .ok (List.prefix_append _ _) hbuilt hplays
  | directive action index =>
    obtain ⟨hbuilt, hsame, hplays⟩ := Store.Twins.cultivable.build action .data htwins
    obtain ⟨hindexed, hother, hplay⟩ := Store.Twins.cultivable.build index .data hbuilt
    simp only [Reply.give, hsame, hother, Store.alloc_eq (Store.Twins.size_eq hindexed)]
    have haction := hplays.mono (List.prefix_append _ (index.roles .data))
    have hfits : (Cell.directive ⟨(action.build first).1,
        (index.build (action.build first).2).1⟩).Fits
          (roles ++ action.roles .data ++ index.roles .data) .data :=
      List.forall_mem_cons.mpr ⟨haction, List.forall_mem_singleton.mpr hplay⟩
    refine .ok ?_ (Store.Twins.alloc hindexed hfits) (Store.alloc_plays hindexed.cast.size .data _)
    rw [List.append_assoc, List.append_assoc]
    exact List.prefix_append _ _
  | failure fault => exact .error (List.prefix_refl _) htwins

/-- Functions that behave alike do the same in both forms of a tree. -/
theorem Conduct.corresponds (conduct : Conduct σ) {roles : List Role} {root : Value}
    (hroot : root.Plays roles .node) :
    Corresponds roles (conduct.host false root) (conduct.host true root) := by
  intro later first second user function call hlater htwins hcall
  have hnodes : ∀ node ∈ root :: call.nodes, node.Plays later .node :=
    List.forall_mem_cons.mpr ⟨hroot.mono hlater, hcall⟩
  unfold Conduct.host
  dsimp only
  rw [htwins.resembles.plain_eq]
  generalize conduct function call first.plain user = deed
  obtain ⟨last, hlast, hchanged⟩ := Mutation.applyAll_twins htwins hnodes deed.mutations
  exact (deed.reply.give_responds hchanged deed.user).mono hlast

end Responses

end Lineage
