import Lineage.Check.Test
import Lineage.Proofs.Node.Children
import Lineage.Proofs.Node.Labels
import Lineage.Proofs.Store.Growth
import Lineage.Walk

/-!
A tree in two forms: the same store once with mappings for nodes and once with
elements. Each cell of such a store has a role. Nodes are held by rows of
children only, so that whatever the program reads of a tree otherwise is data,
which is the same in both forms.
-/

namespace Lineage

/-- The role of a compound value in a tree: a node, the children of a node, or
    data, from which neither is reached. -/
inductive Role where
  | node
  | row
  | data
  deriving DecidableEq

/-- The role of what stands under a key: a node holds its children and data. -/
def Role.ofField (role : Role) (key : String) : Role :=
  if role = .node ∧ key = "children" then .row else .data

/-- The role of what stands in a sequence: children are nodes. -/
def Role.ofItem : Role → Role
  | .row => .node
  | _ => .data

/-- The role of what stands under a key of any sort. -/
def Role.ofEntry (role : Role) (key : Scalar) : Role :=
  match role, key.text? with
  | .row, _ => .node
  | _, some name => role.ofField name
  | _, none => .data

/-- A value has a role, given the roles of the cells by their addresses. What is
    no cell has any. -/
def Value.Plays (roles : List Role) (role : Role) : Value → Prop
  | .cell ref => roles[ref.address]? = some role
  | _ => True

/-- A key under which a node may be looked at without telling its form, or going
    down to its children: a text that does not begin with two underscores, which
    are names that elements have from their class. -/
def Scalar.isShared (key : Scalar) : Bool :=
  match key.text? with
  | some name => name ≠ "children" && name.toList.take 2 ≠ ['_', '_']
  | none => false

theorem Scalar.exists_of_isShared {key : Scalar} (hshared : key.isShared = true) :
    ∃ name, key.text? = some name ∧ name ≠ "children" ∧ Cell.inherited.lookup name = none := by
  unfold Scalar.isShared at hshared
  split at hshared
  · next name hname =>
    simp only [Bool.and_eq_true, decide_eq_true_eq] at hshared
    refine ⟨name, hname, hshared.1, ?_⟩
    have hown : name ≠ "__doc__" ∧ name ≠ "__weakref__" := by
      constructor <;> rintro rfl <;> exact hshared.2 (by decide)
    simp [Cell.inherited, List.lookup_cons, beq_eq_false_iff_ne.mpr hown.1,
      beq_eq_false_iff_ne.mpr hown.2]
  · cases hshared

mutual

/-- The keys that a check looks under. -/
def Check.keys : Check → List Scalar
  | .typeName _ => [.text "type"]
  | .properties fields => fields.entries.map Prod.fst
  | .pattern entries => entries.map Prod.fst
  | .anyOf checks => Check.keysOfAll checks
  | _ => []

def Check.keysOfAll : List Check → List Scalar
  | [] => []
  | check :: rest => check.keys ++ Check.keysOfAll rest

end

mutual

/-- The values that a check compares properties with. -/
def Check.values : Check → List Value
  | .properties fields => fields.map Prod.snd
  | .pattern entries => entries.map Prod.snd
  | .anyOf checks => Check.valuesOfAll checks
  | _ => []

def Check.valuesOfAll : List Check → List Value
  | [] => []
  | check :: rest => check.values ++ Check.valuesOfAll rest

end

/-- The values in a cell of a role, each with a role of its own. -/
def Cell.parts (role : Role) : Cell → List (Role × Value)
  | .list items | .tuple items => items.map fun item => (role.ofItem, item)
  | .mapping fields | .element fields => fields.map fun field => (role.ofField field.1, field.2)
  | .table entries => entries.map fun entry => (role.ofEntry entry.1, entry.2)
  | .directive d => [(.data, d.action), (.data, d.index)]
  | .check c => c.values.map fun value => (.data, value)
  | .incomparable _ => []

/-- A cell fits a role if its parts have theirs. -/
def Cell.Fits (roles : List Role) (role : Role) (cell : Cell) : Prop :=
  ∀ part ∈ cell.parts role, part.2.Plays roles part.1

/-- The cells of a store fit their roles. -/
structure Store.Cast (roles : List Role) (store : Store) : Prop where
  size : roles.length = store.size
  fits : ∀ ref cell role, store.get? ref = some cell → roles[ref.address]? = some role →
    cell.Fits roles role

/-- A mapping of the first store is an element with the same fields in the
    second. -/
def Store.IsTurned (first second : Store) (ref : Ref) : Prop :=
  ∃ fields, first.get? ref = some (.mapping fields) ∧ second.get? ref = some (.element fields)

/-- Two stores with the same at every address, except that a mapping of the
    first may be an element in the second. -/
def Store.Resembles (first second : Store) : Prop :=
  ∀ ref, second.get? ref = first.get? ref ∨ IsTurned first second ref

/-- A tree in two forms. Only nodes may differ. -/
structure Store.Twins (roles : List Role) (first second : Store) : Prop where
  cast : first.Cast roles
  resembles : first.Resembles second
  same : ∀ ref, roles[ref.address]? ≠ some .node → second.get? ref = first.get? ref

@[simp] theorem Role.ofField_data (key : String) : Role.data.ofField key = .data := by
  simp [Role.ofField]

theorem Role.ofField_of_ne {key : String} (hkey : key ≠ "children") (role : Role) :
    role.ofField key = .data := by
  simp [Role.ofField, hkey]

@[simp] theorem Role.ofEntry_data (key : Scalar) : Role.data.ofEntry key = .data := by
  unfold Role.ofEntry
  cases key.text? with
  | none => rfl
  | some name => exact Role.ofField_data name

theorem Role.ofEntry_node {key : Scalar} {name : String} (hkey : key.text? = some name) :
    Role.node.ofEntry key = Role.node.ofField name := by
  unfold Role.ofEntry
  rw [hkey]

/-- What is under a key in a table is under an equal key there. -/
theorem mem_of_value?_eq_some {entries : Entries} {key : Scalar} {value : Value}
    (hvalue : entries.value? key = some value) :
    ∃ other, other.equal key = true ∧ (other, value) ∈ entries := by
  obtain ⟨⟨other, found⟩, hfind, rfl⟩ := Option.map_eq_some_iff.mp hvalue
  exact ⟨other, by simpa using List.find?_some hfind, List.mem_of_find?_eq_some hfind⟩

/-- Only texts and actions are equal to a text. -/
theorem Scalar.text?_of_equal {key : Scalar} {name : String} (hequal : key.equal (.text name) = true) :
    key.text? = some name := by
  cases key with
  | text s => simpa [Scalar.equal, Scalar.content, Scalar.text?] using hequal
  | action a => simpa [Scalar.equal, Scalar.content, Scalar.text?] using hequal
  | float x => cases x <;> simp [Scalar.equal, Scalar.content] at hequal
  | _ => simp [Scalar.equal, Scalar.content] at hequal

section Parts

variable {roles later : List Role} {role : Role} {value : Value}

theorem Value.Plays.mono (hplays : value.Plays roles role) (hlater : roles <+: later) :
    value.Plays later role := by
  cases value with
  | scalar s => trivial
  | function f => trivial
  | cell ref =>
    obtain ⟨rest, rfl⟩ := hlater
    obtain ⟨hlt, _⟩ := List.getElem?_eq_some_iff.mp hplays
    show (roles ++ rest)[ref.address]? = some role
    rw [List.getElem?_append_left hlt]
    exact hplays

theorem Cell.Fits.mono {cell : Cell} (hfits : cell.Fits roles role) (hlater : roles <+: later) :
    cell.Fits later role :=
  fun part hpart => (hfits part hpart).mono hlater

/-- Data holds data only. -/
theorem Cell.parts_data {cell : Cell} {part : Role × Value} (hpart : part ∈ cell.parts .data) :
    part.1 = .data := by
  cases cell with
  | list items | tuple items =>
    obtain ⟨item, _, rfl⟩ := List.mem_map.mp hpart
    rfl
  | mapping fields | element fields =>
    obtain ⟨field, _, rfl⟩ := List.mem_map.mp hpart
    exact Role.ofField_data field.1
  | table entries =>
    obtain ⟨entry, _, rfl⟩ := List.mem_map.mp hpart
    exact Role.ofEntry_data entry.1
  | directive d =>
    cases List.mem_cons.mp hpart with
    | inl haction => rw [haction]
    | inr hindex => rw [List.mem_singleton.mp hindex]
  | check c =>
    obtain ⟨value, _, rfl⟩ := List.mem_map.mp hpart
    rfl
  | incomparable category => cases hpart

/-- A property of a node is its children or data. -/
theorem Cell.Fits.property? {cell : Cell} (hfits : cell.Fits roles .node) {key : String}
    (hproperty : cell.property? key = some value) :
    value.Plays roles (Role.node.ofField key) := by
  cases cell with
  | mapping fields => exact hfits _ (List.mem_map_of_mem (mem_of_lookup_eq_some hproperty))
  | table entries =>
    obtain ⟨other, hequal, hmem⟩ := mem_of_value?_eq_some hproperty
    rw [← Role.ofEntry_node (Scalar.text?_of_equal hequal)]
    exact hfits _ (List.mem_map_of_mem hmem)
  | element fields =>
    rcases Option.or_eq_some_iff.mp hproperty with hown | ⟨_, hinherited⟩
    · exact hfits _ (List.mem_map_of_mem (mem_of_lookup_eq_some hown))
    · have hmem := mem_of_lookup_eq_some hinherited
      simp only [Cell.inherited, List.mem_cons, List.not_mem_nil, or_false, Prod.mk.injEq] at hmem
      rcases hmem with ⟨_, rfl⟩ | ⟨_, rfl⟩ <;> trivial
  | directive directive =>
    have hmem := mem_of_lookup_eq_some hproperty
    simp only [List.mem_cons, List.not_mem_nil, or_false, Prod.mk.injEq] at hmem
    rcases hmem with ⟨rfl, rfl⟩ | ⟨rfl, rfl⟩
    · exact hfits (.data, directive.action) (by simp [Cell.parts])
    · exact hfits (.data, directive.index) (by simp [Cell.parts])
  | check check =>
    cases check with
    | typeName name =>
      have hmem := mem_of_lookup_eq_some hproperty
      simp only [List.mem_cons, List.not_mem_nil, or_false, Prod.mk.injEq] at hmem
      rw [hmem.2]
      trivial
    | _ => cases hproperty
  | _ => cases hproperty

end Parts

section Congruence

variable {f g : Value → Value → Except Fault Bool}

mutual

/-- How a check is shown depends on how its values are. -/
theorem Check.shown_congr {part other : Value → String} : (check : Check) →
    (∀ value ∈ check.values, part value = other value) → check.shown part = check.shown other
  | .properties fields, hsame => by
    have hfields : (fields.map fun (key, value) => Text.quoted key ++ ": " ++ part value) =
        fields.map fun (key, value) => Text.quoted key ++ ": " ++ other value := by
      apply List.map_congr_left
      rintro ⟨key, value⟩ hfield
      simp only [hsame value (List.mem_map_of_mem hfield)]
    unfold Check.shown
    rw [hfields]
  | .pattern entries, hsame => by
    have hentries : (entries.map fun (key, value) => key.shown ++ ": " ++ part value) =
        entries.map fun (key, value) => key.shown ++ ": " ++ other value := by
      apply List.map_congr_left
      rintro ⟨key, value⟩ hentry
      simp only [hsame value (List.mem_map_of_mem hentry)]
    unfold Check.shown
    rw [hentries]
  | .anyOf checks, hsame => by
    unfold Check.shown
    rw [Check.shownAll_congr checks hsame]
  | .anything, _ | .nothing, _ | .typeName _, _ | .predicate _, _ | .abstract, _ => rfl

theorem Check.shownAll_congr {part other : Value → String} : (checks : List Check) →
    (∀ value ∈ Check.valuesOfAll checks, part value = other value) →
      Check.shownAll part checks = Check.shownAll other checks
  | [], _ => rfl
  | check :: rest, hsame => by
    rw [Check.valuesOfAll, List.forall_mem_append] at hsame
    rw [Check.shownAll, Check.shownAll, Check.shown_congr check hsame.1,
      Check.shownAll_congr rest hsame.2]

end

/-- What is found in a list first depends on what is found in its members. -/
theorem findSome?_congr {α β : Type} {first second : α → Option β} {list : List α}
    (hsame : ∀ a ∈ list, first a = second a) : list.findSome? first = list.findSome? second := by
  induction list with
  | nil => rfl
  | cons a rest ih =>
    rw [List.forall_mem_cons] at hsame
    rw [List.findSome?_cons, List.findSome?_cons, hsame.1, ih hsame.2]

mutual

/-- Whether a check can be written depends on whether its values can. -/
theorem Check.unwritable?_congr {part other : Value → Option Fault}
    (hscalar : ∀ s, part (.scalar s) = other (.scalar s)) : (check : Check) →
    (∀ value ∈ check.values, part value = other value) →
      check.unwritable? part = check.unwritable? other
  | .typeName name, _ => hscalar name
  | .properties fields, hsame =>
    findSome?_congr fun _ hfield => hsame _ (List.mem_map_of_mem hfield)
  | .pattern entries, hsame =>
    findSome?_congr fun entry hentry => by
      dsimp only
      rw [hscalar, hsame entry.2 (List.mem_map_of_mem hentry)]
  | .anyOf checks, hsame => Check.anyUnwritable?_congr hscalar checks hsame
  | .anything, _ | .nothing, _ | .predicate _, _ | .abstract, _ => rfl

theorem Check.anyUnwritable?_congr {part other : Value → Option Fault}
    (hscalar : ∀ s, part (.scalar s) = other (.scalar s)) : (checks : List Check) →
    (∀ value ∈ Check.valuesOfAll checks, part value = other value) →
      Check.anyUnwritable? part checks = Check.anyUnwritable? other checks
  | [], _ => rfl
  | check :: rest, hsame => by
    rw [Check.valuesOfAll, List.forall_mem_append] at hsame
    rw [Check.anyUnwritable?, Check.anyUnwritable?, Check.unwritable?_congr hscalar check hsame.1,
      Check.anyUnwritable?_congr hscalar rest hsame.2]

end

theorem pairwise_congr {firsts seconds : List Value}
    (hsame : ∀ a ∈ firsts, ∀ b ∈ seconds, f a b = g a b) :
    pairwise f firsts seconds = pairwise g firsts seconds := by
  induction firsts generalizing seconds with
  | nil => cases seconds <;> rfl
  | cons a rest ih =>
    cases seconds with
    | nil => rfl
    | cons b others =>
      have hrest : pairwise f rest others = pairwise g rest others :=
        ih fun x hx y hy => hsame x (List.mem_cons_of_mem _ hx) y (List.mem_cons_of_mem _ hy)
      rw [pairwise, pairwise, hrest, hsame a (List.mem_cons_self) b (List.mem_cons_self)]

theorem fieldwise_congr {others fields : Fields}
    (hsame : ∀ other ∈ others, ∀ field ∈ fields, f other.2 field.2 = g other.2 field.2) :
    fieldwise f others fields = fieldwise g others fields := by
  induction fields with
  | nil => rfl
  | cons field rest ih =>
    have hrest : fieldwise f others rest = fieldwise g others rest :=
      ih fun other hother x hx => hsame other hother x (List.mem_cons_of_mem _ hx)
    obtain ⟨key, value⟩ := field
    rw [fieldwise, fieldwise, hrest]
    split
    · rfl
    · next other hlookup =>
      rw [hsame (key, other) (mem_of_lookup_eq_some hlookup) (key, value) (List.mem_cons_self)]

theorem equalTables_congr {entries others : Entries}
    (hsame : ∀ entry ∈ entries, ∀ other ∈ others, f other.2 entry.2 = g other.2 entry.2) :
    equalTables f entries others = equalTables g entries others := by
  have hentries : entrywise f others entries = entrywise g others entries := by
    induction entries with
    | nil => rfl
    | cons entry rest ih =>
      rw [List.forall_mem_cons] at hsame
      obtain ⟨key, value⟩ := entry
      rw [entrywise, entrywise, ih hsame.2]
      split
      · rfl
      · next found hvalue =>
        obtain ⟨other, _, hmem⟩ := mem_of_value?_eq_some hvalue
        rw [hsame.1 _ hmem]
  rw [equalTables, equalTables, hentries]

/-- The values of a mapping as a table are its parts. -/
theorem mem_parts_of_entries {fields : Fields} (role : Role) {entry : Scalar × Value}
    (hentry : entry ∈ fields.entries) :
    ∃ part ∈ (Cell.mapping fields).parts role, part.2 = entry.2 := by
  obtain ⟨field, hfield, rfl⟩ := List.mem_map.mp hentry
  exact ⟨_, List.mem_map_of_mem hfield, rfl⟩

/-- Cells are equal if their parts are. -/
theorem Store.equalCells_congr {cell other : Cell} (role : Role)
    (hsame : ∀ a ∈ cell.parts role, ∀ b ∈ other.parts role,
      f a.2 b.2 = g a.2 b.2 ∧ f b.2 a.2 = g b.2 a.2) :
    Store.equalCells f cell other = Store.equalCells g cell other := by
  have hitems : ∀ firsts seconds : List Value,
      (∀ a ∈ firsts, (role.ofItem, a) ∈ cell.parts role) →
      (∀ b ∈ seconds, (role.ofItem, b) ∈ other.parts role) →
      pairwise f firsts seconds = pairwise g firsts seconds := by
    intro firsts seconds hfirsts hseconds
    exact pairwise_congr fun a ha b hb => (hsame _ (hfirsts a ha) _ (hseconds b hb)).1
  unfold Store.equalCells
  split
  · rw [hitems _ _ (fun _ => List.mem_map_of_mem) (fun _ => List.mem_map_of_mem)]
  · exact hitems _ _ (fun _ => List.mem_map_of_mem) (fun _ => List.mem_map_of_mem)
  · rw [fieldwise_congr fun b hb a ha =>
      (hsame _ (List.mem_map_of_mem ha) _ (List.mem_map_of_mem hb)).2]
  · apply equalTables_congr
    intro a ha b hb
    obtain ⟨part, hpart, hvalue⟩ := mem_parts_of_entries role ha
    rw [← hvalue]
    exact (hsame _ hpart _ (List.mem_map_of_mem hb)).2
  · apply equalTables_congr
    intro a ha b hb
    obtain ⟨part, hpart, hvalue⟩ := mem_parts_of_entries role hb
    rw [← hvalue]
    exact (hsame _ (List.mem_map_of_mem ha) _ hpart).2
  · exact equalTables_congr fun a ha b hb =>
      (hsame _ (List.mem_map_of_mem ha) _ (List.mem_map_of_mem hb)).2
  · apply pairwise_congr
    intro a ha b hb
    refine (hsame (.data, a) ?_ (.data, b) ?_).1
    · simpa [Cell.parts] using ha
    · simpa [Cell.parts] using hb
  · rfl
  · rfl

end Congruence

namespace Store

variable {roles : List Role} {first second : Store}

theorem Resembles.size_eq (hresembles : first.Resembles second) : second.size = first.size := by
  have hheld : ∀ (store : Store) n, (store.get? ⟨n⟩).isSome ↔ n < store.size := by
    intro store n
    simp [get?, size]
  have hiff : ∀ n, n < second.size ↔ n < first.size := by
    intro n
    rw [← hheld, ← hheld]
    cases hresembles ⟨n⟩ with
    | inl hsame => rw [hsame]
    | inr hturned =>
      obtain ⟨fields, hfirst, hsecond⟩ := hturned
      rw [hfirst, hsecond]
      rfl
  have hfirst := hiff first.size
  have hsecond := hiff second.size
  omega

theorem Resembles.property?_eq (hresembles : first.Resembles second) (node : Value)
    {key : String} (hkey : Cell.inherited.lookup key = none) :
    second.property? node key = first.property? node key := by
  cases node with
  | scalar s => rfl
  | function f => rfl
  | cell ref =>
    show (second.get? ref).bind _ = (first.get? ref).bind _
    cases hresembles ref with
    | inl hsame => rw [hsame]
    | inr hturned =>
      obtain ⟨fields, hfirst, hsecond⟩ := hturned
      rw [hfirst, hsecond]
      show (fields.lookup key).or _ = fields.lookup key
      rw [hkey, Option.or_none]

section Reading

variable (hresembles : first.Resembles second) (node : Value)

include hresembles

theorem Resembles.typeOf_eq : second.typeOf node = first.typeOf node := by
  rw [typeOf, typeOf, hresembles.property?_eq node rfl]

theorem Resembles.children_eq : second.children node = first.children node := by
  rw [children, children, hresembles.property?_eq node rfl]

theorem Resembles.caption?_eq : second.caption? node = first.caption? node := by
  rw [caption?, caption?]
  apply findSome?_congr
  intro key hkey
  have hnone : Cell.inherited.lookup key = none := by
    simp only [List.mem_cons, List.not_mem_nil, or_false] at hkey
    rcases hkey with rfl | rfl <;> rfl
  rw [hresembles.property?_eq node hnone]

end Reading

namespace Twins

variable (htwins : first.Twins roles second) {role : Role} {value node : Value}

include htwins

theorem size_eq : second.size = first.size :=
  htwins.resembles.size_eq

/-- What is no node is the same in both forms. -/
theorem cell?_eq (hplays : value.Plays roles role) (hrole : role ≠ .node) :
    second.cell? value = first.cell? value := by
  cases value with
  | scalar s => rfl
  | function f => rfl
  | cell ref =>
    apply htwins.same
    intro hnode
    exact hrole (Option.some.inj (hplays.symm.trans hnode))

theorem fits {cell : Cell} (hcell : first.cell? value = some cell)
    (hplays : value.Plays roles role) : cell.Fits roles role := by
  cases value with
  | scalar s => cases hcell
  | function f => cases hcell
  | cell ref => exact htwins.cast.fits ref cell role hcell hplays

theorem kind_eq (hplays : value.Plays roles role) (hrole : role ≠ .node) :
    second.kind value = first.kind value := by
  have hcell := htwins.cell?_eq hplays hrole
  cases value with
  | scalar s => rfl
  | function f => rfl
  | cell ref => exact congrArg (fun cell => (Option.map Cell.kind cell).getD .null) hcell

theorem isTrue_eq (hplays : value.Plays roles role) (hrole : role ≠ .node) :
    second.isTrue value = first.isTrue value := by
  have hcell := htwins.cell?_eq hplays hrole
  cases value with
  | scalar s => rfl
  | function f => rfl
  | cell ref =>
    have hget : second.get? ref = first.get? ref := hcell
    simp only [isTrue, hget]

theorem members?_eq (hplays : value.Plays roles role) (hrole : role ≠ .node) :
    second.members? value = first.members? value := by
  have hcell := htwins.cell?_eq hplays hrole
  cases value with
  | scalar s => cases s <;> rfl
  | function f => rfl
  | cell ref => simp only [members?, hcell]

theorem lengthOf_eq (hplays : value.Plays roles role) (hrole : role ≠ .node) :
    second.lengthOf value = first.lengthOf value := by
  simp only [lengthOf, htwins.members?_eq hplays hrole, htwins.cell?_eq hplays hrole,
    htwins.kind_eq hplays hrole]

/-- A property of a node is its children or data. -/
theorem property?_plays (hnode : node.Plays roles .node) {key : String}
    (hproperty : first.property? node key = some value) :
    value.Plays roles (Role.node.ofField key) := by
  cases node with
  | scalar s =>
    obtain ⟨part, rfl⟩ := s.properties_scalar _ (mem_of_lookup_eq_some hproperty)
    trivial
  | function f => cases hproperty
  | cell ref =>
    obtain ⟨cell, hcell, hfound⟩ := Option.bind_eq_some_iff.mp hproperty
    exact (htwins.fits hcell hnode).property? hfound

theorem typeOf_plays (hnode : node.Plays roles .node) :
    (first.typeOf node).Plays roles .data := by
  rw [typeOf]
  cases hproperty : first.property? node "type" with
  | none => trivial
  | some type => exact htwins.property?_plays hnode hproperty

theorem children_plays (hnode : node.Plays roles .node) :
    (first.children node).Plays roles .row := by
  rw [children]
  cases hproperty : first.property? node "children" with
  | none => trivial
  | some children => exact htwins.property?_plays hnode hproperty

/-- The members of a row are nodes. -/
theorem members?_plays (hrow : value.Plays roles .row) {members : List Value}
    (hmembers : first.members? value = some members) : ∀ member ∈ members,
      member.Plays roles .node := by
  intro member hmember
  cases value with
  | scalar s =>
    cases s with
    | text s =>
      cases hmembers
      obtain ⟨c, _, rfl⟩ := List.mem_map.mp hmember
      trivial
    | action a =>
      cases hmembers
      obtain ⟨c, _, rfl⟩ := List.mem_map.mp hmember
      trivial
    | _ => cases hmembers
  | function f => cases hmembers
  | cell ref =>
    simp only [members?] at hmembers
    split at hmembers
    · next items hcell =>
      cases hmembers
      exact htwins.fits hcell hrow _ (List.mem_map_of_mem hmember)
    · next items hcell =>
      cases hmembers
      exact htwins.fits hcell hrow _ (List.mem_map_of_mem hmember)
    · cases hmembers

/-- A cursor that is data points to the same child in both forms. -/
theorem childAt_eq {children cursor : Value} (hrow : children.Plays roles .row)
    (hcursor : cursor.Plays roles .data) :
    second.childAt children cursor = first.childAt children cursor := by
  have hrole : Role.row ≠ .node := by simp
  have hkind : second.kind cursor = first.kind cursor := htwins.kind_eq hcursor (by simp)
  simp only [childAt, isFromStart, memberAt, htwins.lengthOf_eq hrow hrole,
    htwins.members?_eq hrow hrole, htwins.cell?_eq hrow hrole, htwins.kind_eq hrow hrole, hkind]

theorem childAt_plays {children cursor child : Value} (hrow : children.Plays roles .row)
    (hchild : first.childAt children cursor = .ok (some child)) : child.Plays roles .node := by
  rcases child_cases hchild with ⟨members, hmembers, n, _, hn, rfl⟩ | ⟨entries, key, htable, _, hvalue⟩
  · exact htwins.members?_plays hrow hmembers _ (List.getElem_mem hn)
  · obtain ⟨other, _, hmem⟩ := mem_of_value?_eq_some hvalue
    exact htwins.fits htable hrow _ (List.mem_map_of_mem hmem)

end Twins

section Data

variable (htwins : first.Twins roles second)

include htwins

/-- Data is shown alike in both forms. -/
theorem Twins.shownAt_eq (fuel : Nat) (path : List Ref) {value : Value}
    (hdata : value.Plays roles .data) :
    second.shownAt fuel path value = first.shownAt fuel path value := by
  induction fuel generalizing path value with
  | zero =>
    cases value with
    | scalar s => simp only [shownAt]
    | function f => simp only [shownAt]
    | cell ref =>
      have hget : second.get? ref = first.get? ref := htwins.cell?_eq hdata (by simp)
      simp only [shownAt, hget]
  | succ fuel ih =>
    cases value with
    | scalar s => simp only [shownAt]
    | function f => simp only [shownAt]
    | cell ref =>
      have hget : second.get? ref = first.get? ref := htwins.cell?_eq hdata (by simp)
      simp only [shownAt, hget]
      cases hcell : first.get? ref with
      | none => rfl
      | some cell =>
        have hparts : ∀ part ∈ cell.parts .data, ∀ path,
            second.shownAt fuel path part.2 = first.shownAt fuel path part.2 := by
          intro part hpart path
          apply ih
          rw [← Cell.parts_data hpart]
          exact htwins.cast.fits _ _ _ hcell hdata part hpart
        split
        · rfl
        cases cell with
        | list items =>
          simp only
          rw [List.map_congr_left fun item hitem => hparts _ (List.mem_map_of_mem hitem) _]
        | tuple items =>
          simp only
          rw [List.map_congr_left fun item hitem => hparts _ (List.mem_map_of_mem hitem) _]
        | mapping fields =>
          simp only
          rw [List.map_congr_left fun field hfield =>
            congrArg _ (hparts _ (List.mem_map_of_mem hfield) _)]
        | table entries =>
          simp only
          rw [List.map_congr_left fun entry hentry =>
            congrArg _ (hparts _ (List.mem_map_of_mem hentry) _)]
        | element fields => rfl
        | directive d =>
          simp only [hparts (.data, d.action) (by simp [Cell.parts]),
            hparts (.data, d.index) (by simp [Cell.parts])]
        | check c =>
          exact c.shown_congr fun value hvalue => hparts _ (List.mem_map_of_mem hvalue) _
        | incomparable category => rfl

/-- Data can be written in both forms or in neither. -/
theorem Twins.unwritableAt?_eq (fuel : Nat) (path : List Ref) {value : Value}
    (hdata : value.Plays roles .data) :
    second.unwritableAt? fuel path value = first.unwritableAt? fuel path value := by
  induction fuel generalizing path value with
  | zero => cases value <;> simp only [unwritableAt?]
  | succ fuel ih =>
    cases value with
    | scalar s => simp only [unwritableAt?]
    | function f => simp only [unwritableAt?]
    | cell ref =>
      have hget : second.get? ref = first.get? ref := htwins.cell?_eq hdata (by simp)
      have hscalar : ∀ path s, second.unwritableAt? fuel path (.scalar s) =
          first.unwritableAt? fuel path (.scalar s) := fun _ _ => ih _ trivial
      simp only [unwritableAt?, hget]
      cases hcell : first.get? ref with
      | none => rfl
      | some cell =>
        have hparts : ∀ part ∈ cell.parts .data, ∀ path,
            second.unwritableAt? fuel path part.2 = first.unwritableAt? fuel path part.2 := by
          intro part hpart path
          apply ih
          rw [← Cell.parts_data hpart]
          exact htwins.cast.fits _ _ _ hcell hdata part hpart
        split
        · rfl
        split
        · rfl
        cases cell with
        | list items | tuple items =>
          exact findSome?_congr fun item hitem => hparts _ (List.mem_map_of_mem hitem) _
        | mapping fields =>
          exact findSome?_congr fun field hfield => hparts _ (List.mem_map_of_mem hfield) _
        | table entries =>
          apply findSome?_congr
          intro entry hentry
          rw [hparts _ (List.mem_map_of_mem hentry)]
        | element fields => rfl
        | directive d =>
          simp only [hparts (.data, d.action) (by simp [Cell.parts]),
            hparts (.data, d.index) (by simp [Cell.parts])]
        | check c =>
          exact c.unwritable?_congr (hscalar _) fun value hvalue =>
            hparts _ (List.mem_map_of_mem hvalue) _
        | incomparable category => rfl

theorem Twins.unwritable?_eq {value : Value} (hdata : value.Plays roles .data) :
    second.unwritable? value = first.unwritable? value := by
  rw [unwritable?, unwritable?, htwins.size_eq, htwins.unwritableAt?_eq _ _ hdata]

theorem Twins.shown_eq {value : Value} (hdata : value.Plays roles .data) :
    second.shown value = first.shown value := by
  rw [shown, shown, htwins.size_eq, htwins.shownAt_eq _ _ hdata]

theorem Twins.display_eq {value : Value} (hdata : value.Plays roles .data) :
    second.display value = first.display value := by
  cases value with
  | scalar s => rfl
  | function f => exact htwins.shown_eq hdata
  | cell ref => exact htwins.shown_eq hdata

theorem Twins.write_eq {value : Value} (hdata : value.Plays roles .data) :
    second.write value = first.write value := by
  rw [write, write, htwins.unwritable?_eq hdata, htwins.shown_eq hdata]

/-- Data is compared alike in both forms. -/
theorem Twins.equalAt_eq (fuel : Nat) {value other : Value} (hvalue : value.Plays roles .data)
    (hother : other.Plays roles .data) :
    second.equalAt fuel value other = first.equalAt fuel value other := by
  induction fuel generalizing value other with
  | zero => rfl
  | succ fuel ih =>
    have hrefusal : ∀ {value : Value}, value.Plays roles .data →
        second.refusal? value = first.refusal? value := by
      intro value hdata
      rw [refusal?, refusal?, htwins.cell?_eq hdata (by simp)]
    unfold equalAt
    rw [hrefusal hvalue, hrefusal hother]
    split
    · rfl
    · rfl
    · cases value with
      | scalar s => cases other <;> rfl
      | function f => cases other <;> rfl
      | cell ref =>
        cases other with
        | scalar s => rfl
        | function f => rfl
        | cell query =>
          have hone : second.get? ref = first.get? ref := htwins.cell?_eq hvalue (by simp)
          have htwo : second.get? query = first.get? query := htwins.cell?_eq hother (by simp)
          simp only [hone, htwo]
          split
          · rfl
          · split
            · next x y hx hy =>
              apply equalCells_congr .data
              intro a ha b hb
              have hplays := htwins.cast.fits _ _ _ hx hvalue a ha
              have hplays' := htwins.cast.fits _ _ _ hy hother b hb
              rw [Cell.parts_data ha] at hplays
              rw [Cell.parts_data hb] at hplays'
              rw [ih hplays hplays', ih hplays' hplays]
              exact ⟨rfl, rfl⟩
            · rfl

theorem Twins.equal_eq {value other : Value} (hvalue : value.Plays roles .data)
    (hother : other.Plays roles .data) : second.equal value other = first.equal value other := by
  rw [equal, equal, htwins.size_eq, htwins.equalAt_eq _ hvalue hother]

theorem Twins.agrees_eq {value other : Value} (hvalue : value.Plays roles .data)
    (hother : other.Plays roles .data) :
    second.agrees value other = first.agrees value other := by
  rw [agrees, agrees, htwins.kind_eq hvalue (by simp), htwins.kind_eq hother (by simp),
    htwins.equal_eq hvalue hother]

variable {node : Value} (hnode : node.Plays roles .node)

include hnode

/-- A pattern that looks under shared keys only finds the same properties. -/
theorem Twins.hasEntries_eq (entries : Entries) (hkeys : ∀ entry ∈ entries, entry.1.isShared = true)
    (hvalues : ∀ entry ∈ entries, entry.2.Plays roles .data) :
    Check.hasEntries second node entries = Check.hasEntries first node entries := by
  induction entries with
  | nil => rfl
  | cons entry rest ih =>
    obtain ⟨key, expected⟩ := entry
    rw [List.forall_mem_cons] at hkeys hvalues
    obtain ⟨name, hname, hchildren, hinherited⟩ := Scalar.exists_of_isShared hkeys.1
    have hentry : ∀ store : Store, store.valueAt? node key = .ok (store.property? node name) := by
      intro store
      rw [valueAt?, hname]
      rfl
    rw [Check.hasEntries, Check.hasEntries, hentry, hentry,
      htwins.resembles.property?_eq node hinherited, ih hkeys.2 hvalues.2]
    cases hproperty : first.property? node name with
    | none => rfl
    | some actual =>
      have hactual := htwins.property?_plays hnode hproperty
      rw [Role.ofField_of_ne hchildren] at hactual
      simp only [bind, Except.bind, htwins.agrees_eq hactual hvalues.1]

/-- What the label of a node with a type starts with is the same in both forms. -/
theorem Twins.head_eq (htype : first.isTrue (first.typeOf node) = true) :
    second.head node = first.head node := by
  have hsecond : second.isTrue (first.typeOf node) = true := by
    rw [htwins.isTrue_eq (htwins.typeOf_plays hnode) (by simp), htype]
  simp only [head, htwins.resembles.typeOf_eq, htype, hsecond, if_true]

omit htwins hnode in
/-- What the label of a node without a type starts with is a text, whatever form
    the node has. -/
theorem head_of_not_isTrue {store : Store} {node : Value}
    (htype : store.isTrue (store.typeOf node) = false) :
    store.head node = .text (store.kind node).name := by
  simp only [head, htype, Bool.false_eq_true, if_false]

theorem Twins.head_plays : (first.head node).Plays roles .data := by
  unfold head
  dsimp only
  split
  · exact htwins.typeOf_plays hnode
  · trivial

/-- The label of a node can be written in both forms or in neither. -/
theorem Twins.unwritable?_head :
    second.unwritable? (second.head node) = first.unwritable? (first.head node) := by
  cases htype : first.isTrue (first.typeOf node) with
  | true => rw [htwins.head_eq hnode htype, htwins.unwritable?_eq (htwins.head_plays hnode)]
  | false =>
    have hsecond : second.isTrue (second.typeOf node) = false := by
      rw [htwins.resembles.typeOf_eq, htwins.isTrue_eq (htwins.typeOf_plays hnode) (by simp), htype]
    rw [head_of_not_isTrue htype, head_of_not_isTrue hsecond, unwritable?_text, unwritable?_text]

/-- The label of a node with a type is the same in both forms. -/
theorem Twins.label_eq (htype : first.isTrue (first.typeOf node) = true) :
    second.label node = first.label node := by
  rw [label, label, htwins.resembles.caption?_eq, htwins.head_eq hnode htype,
    htwins.display_eq (htwins.head_plays hnode)]

end Data

/-- The label of a node without a type is a text, whatever form the node has. -/
theorem label_of_not_isTrue {store : Store} {node : Value}
    (htype : store.isTrue (store.typeOf node) = false) : ∃ text, store.label node = .text text := by
  rw [label, head_of_not_isTrue htype]
  split
  · exact ⟨_, rfl⟩
  · exact ⟨_, rfl⟩

end Store

/-- An answer that is data is read alike in both forms, and asks for data. -/
theorem Directive.read_plays {roles : List Role} {first second : Store} {answer : Value}
    (htwins : first.Twins roles second) (hdata : answer.Plays roles .data) :
    Directive.read second answer = Directive.read first answer ∧
      ∀ directive, Directive.read first answer = some directive →
        directive.index.Plays roles .data := by
  cases answer with
  | scalar s =>
    refine ⟨by cases s <;> rfl, ?_⟩
    intro directive hread
    cases s <;> cases hread <;> trivial
  | function f => exact ⟨rfl, fun directive hread => by cases hread⟩
  | cell ref =>
    have hget : second.get? ref = first.get? ref := htwins.cell?_eq hdata (by simp)
    have hparts : ∀ parts : List Value, (Directive.ofParts parts).index.Plays roles .data := by
      intro parts
      match parts with
      | [] | [_] => trivial
      | _ :: second :: _ =>
        simp only [Directive.ofParts, Directive.indexOf]
        split <;> trivial
    simp only [Directive.read, hget]
    refine ⟨trivial, ?_⟩
    intro directive hread
    split at hread
    · next d hcell =>
      cases hread
      exact htwins.cast.fits _ _ _ hcell hdata (.data, directive.index) (by simp [Cell.parts])
    · cases hread
      exact hparts _
    · cases hread
      exact hparts _
    · cases hread

end Lineage
