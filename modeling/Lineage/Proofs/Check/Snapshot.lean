import Lineage.Collect
import Lineage.Edit
import Lineage.Proofs.Check.Leaves
import Lineage.Proofs.NodeForms.PlantedData
import Lineage.Proofs.Store.Relocation

namespace Lineage

/-- An address is that of a value or of a part of it, however deep. -/
inductive Store.Leads (store : Store) : Value → Ref → Prop where
  | here (ref : Ref) : Leads store (.cell ref) ref
  | part {holder ref : Ref} {cell : Cell} {part : Role × Value}
      (hget : store.get? holder = some cell) (hpart : part ∈ cell.parts .data)
      (hleads : Leads store part.2 ref) : Leads store (.cell holder) ref

/-- An address is that of one of some values or of a part of one. -/
def Store.LeadsFrom (store : Store) (values : List Value) (ref : Ref) : Prop :=
  ∃ value ∈ values, store.Leads value ref

/-- What an edit of a value changes. -/
def DataEdit.container (store : Store) (root : Value) : DataEdit → Value
  | .set path _ | .erase path => store.follow root path.dropLast
  | .append path _ => store.follow root path

/-- What a store can come to while a test is edited and new values are put
    beside it. No edit reaches inside the values to keep. -/
inductive Store.Edited (origin : Store) (test : Value) (kept : List Value) : Store → Prop where
  | start : Edited origin test kept origin
  | alloc {store : Store} (cell : Cell) (hedited : Edited origin test kept store) :
      Edited origin test kept (store.alloc cell).2
  | edit {store : Store} (edit : DataEdit) (hedited : Edited origin test kept store)
      (houtside : ∀ ref, edit.container store test = .cell ref → ¬ origin.LeadsFrom kept ref) :
      Edited origin test kept (edit.apply store test)

/-- What some values are made of is as it was, beside what may be new. -/
structure Store.Retains (origin : Store) (kept : List Value) (later : Store) : Prop where
  size : origin.size ≤ later.size
  cells : ∀ ref, origin.LeadsFrom kept ref → later.get? ref = origin.get? ref

/-- A node in one store looks like a node in another, with nothing tied to what
    some values are made of but this itself. -/
def Store.LooksLike (origin : Store) (kept : List Value) (first : Store) (node : Value)
    (second : Store) (other : Value) : Prop :=
  ∃ ties, Store.Ties ties first second ∧ node.Tied ties other ∧
    ∀ ref copy, ties ref copy → origin.LeadsFrom kept ref ∨ origin.LeadsFrom kept copy → ref = copy

section Edits

variable {store : Store}

theorem Store.updateItems_cases (list : Value) (f : List Value → List Value) :
    store.updateItems list f = store ∨
      ∃ ref cell, list = .cell ref ∧ store.updateItems list f = store.put ref cell := by
  unfold Store.updateItems
  split
  · split
    · exact .inr ⟨_, _, rfl, rfl⟩
    · exact .inl rfl
  · exact .inl rfl

theorem Store.updateFields_cases (node : Value) (f : Fields → Fields) (g : Entries → Entries) :
    store.updateFields node f g = store ∨
      ∃ ref cell, node = .cell ref ∧ store.updateFields node f g = store.put ref cell := by
  unfold Store.updateFields
  split
  · split
    · exact .inr ⟨_, _, rfl, rfl⟩
    · exact .inr ⟨_, _, rfl, rfl⟩
    · exact .inr ⟨_, _, rfl, rfl⟩
    · exact .inl rfl
  · exact .inl rfl

theorem Store.updateEntries_cases (mapping : Value) (g : Entries → Entries) :
    store.updateEntries mapping g = store ∨
      ∃ ref cell, mapping = .cell ref ∧ store.updateEntries mapping g = store.put ref cell := by
  unfold Store.updateEntries
  split
  · split
    · exact .inr ⟨_, _, rfl, rfl⟩
    · exact .inr ⟨_, _, rfl, rfl⟩
    · exact .inl rfl
  · exact .inl rfl

/-- An edit changes nothing or puts another cell in place of its container. -/
theorem DataEdit.apply_cases (edit : DataEdit) (root : Value) :
    edit.apply store root = store ∨ ∃ ref cell, edit.container store root = .cell ref ∧
      edit.apply store root = store.put ref cell := by
  cases edit with
  | set path value =>
    simp only [apply, container]
    split
    · next step _ =>
      cases step with
      | key key => exact Store.updateFields_cases _ _ _
      | entry key => exact Store.updateEntries_cases _ _
      | place place => exact Store.updateItems_cases _ _
    · exact .inl rfl
  | erase path =>
    simp only [apply, container]
    split
    · next step _ =>
      cases step with
      | key key => exact Store.updateFields_cases _ _ _
      | entry key => exact Store.updateEntries_cases _ _
      | place place => exact Store.updateItems_cases _ _
    · exact .inl rfl
  | append path value => exact Store.updateItems_cases _ _

end Edits

namespace Store

variable {origin first second : Store} {kept : List Value}

theorem size_put (store : Store) (ref : Ref) (cell : Cell) :
    (store.put ref cell).size = store.size := by
  simp [put, size]

theorem size_alloc (store : Store) (cell : Cell) :
    (store.alloc cell).2.size = store.size + 1 := by
  simp [alloc, size]

/-- Whatever happens to the test, the values to keep are as they were. -/
theorem Edited.retains {test : Value} {later : Store}
    (hheld : ∀ ref, origin.LeadsFrom kept ref → ref.address < origin.size)
    (hedited : origin.Edited test kept later) : origin.Retains kept later := by
  induction hedited with
  | start => exact ⟨Nat.le_refl _, fun _ _ => rfl⟩
  | @alloc store cell _ ih =>
    refine ⟨?_, fun ref hleads => ?_⟩
    · rw [size_alloc]
      exact Nat.le_succ_of_le ih.size
    · rw [get?_alloc_of_lt store cell ref (Nat.lt_of_lt_of_le (hheld ref hleads) ih.size), ih.cells ref hleads]
  | @edit store edit _ houtside ih =>
    rcases edit.apply_cases test with hsame | ⟨changed, cell, hcontainer, hput⟩
    · rw [hsame]
      exact ih
    · rw [hput]
      refine ⟨?_, fun ref hleads => ?_⟩
      · rw [size_put]
        exact ih.size
      · rw [get?_put_of_ne, ih.cells ref hleads]
        rintro rfl
        exact houtside changed hcontainer hleads

section Additions

variable {test : Value}

mutual

/-- New data can be put beside a test at any time. -/
theorem Edited.build {store : Store} (datum : Datum) (hedited : origin.Edited test kept store) :
    origin.Edited test kept (datum.build store).2 := by
  match datum with
  | .scalar s => exact hedited
  | .list items => exact .alloc _ (hedited.buildItems items)
  | .tuple items => exact .alloc _ (hedited.buildItems items)
  | .mapping fields => exact .alloc _ (hedited.buildFields fields)

theorem Edited.buildItems {store : Store} (items : List Datum)
    (hedited : origin.Edited test kept store) :
    origin.Edited test kept (Datum.buildItems items store).2 := by
  match items with
  | [] => exact hedited
  | item :: rest => exact (hedited.build item).buildItems rest

theorem Edited.buildFields {store : Store} (fields : List (String × Datum))
    (hedited : origin.Edited test kept store) :
    origin.Edited test kept (Datum.buildFields fields store).2 := by
  match fields with
  | [] => exact hedited
  | (_, datum) :: rest => exact (hedited.build datum).buildFields rest

end

end Additions

theorem Leads.held (hclosed : origin.Closed) {value : Value} {ref : Ref}
    (hleads : origin.Leads value ref) (hheld : origin.Holds value) : ref.address < origin.size := by
  induction hleads with
  | here ref =>
    obtain ⟨cell, hget⟩ := hheld
    exact address_lt_of_get? hget
  | part hget hpart _ ih => exact ih (hclosed _ _ hget _ hpart)

theorem LeadsFrom.part {holder ref : Ref} {cell : Cell} {part : Role × Value}
    (hholder : origin.LeadsFrom kept holder) (hget : origin.get? holder = some cell)
    (hpart : part ∈ cell.parts .data) (hleads : origin.Leads part.2 ref) :
    origin.LeadsFrom kept ref := by
  obtain ⟨value, hvalue, hholder⟩ := hholder
  refine ⟨value, hvalue, ?_⟩
  clear hvalue
  induction hholder with
  | here holder => exact .part hget hpart hleads
  | part hother hmem _ ih => exact .part hother hmem (ih hget)

end Store

theorem Value.tied_self {ties : Ref → Ref → Prop} {value : Value}
    (hties : ∀ ref, value = .cell ref → ties ref ref) : value.Tied ties value := by
  cases value with
  | scalar s => exact .scalar s
  | function f => exact .function f
  | cell ref => exact .cell (hties ref rfl)

theorem Cell.tied_self {ties : Ref → Ref → Prop} {cell : Cell}
    (hparts : ∀ part ∈ cell.parts .data, part.2.Tied ties part.2) : cell.Tied ties cell := by
  have hitems : ∀ items : List Value, (∀ item ∈ items, item.Tied ties item) →
      List.Forall₂ (Value.Tied ties) items items := fun items => List.forall₂_same.mpr
  have hfields : ∀ {Key : Type} (fields : List (Key × Value)),
      (∀ field ∈ fields, field.2.Tied ties field.2) →
      List.Forall₂ (FieldsTied ties) fields fields := fun fields hsame =>
    List.forall₂_same.mpr fun field hfield => ⟨rfl, hsame field hfield⟩
  cases cell with
  | list items => exact .list (hitems items fun item hitem => hparts _ (List.mem_map_of_mem hitem))
  | tuple items =>
    exact .tuple (hitems items fun item hitem => hparts _ (List.mem_map_of_mem hitem))
  | mapping fields =>
    exact .mapping (hfields fields fun field hfield => hparts _ (List.mem_map_of_mem hfield))
  | table entries =>
    refine .table (hfields entries fun entry hentry => ?_)
    exact hparts (Role.ofEntry .data entry.1, entry.2) (List.mem_map_of_mem hentry)
  | element fields =>
    exact .element (hfields fields fun field hfield => hparts _ (List.mem_map_of_mem hfield))
  | directive directive =>
    exact .directive (hparts (.data, directive.action) (.head _))
      (hparts (.data, directive.index) (.tail _ (.head _)))
  | check check => exact .check check
  | incomparable category => exact .incomparable category

namespace Store

/-- A node that looks like another can be compared with the values to keep as
    the other can. -/
theorem LooksLike.exists_ties {origin first second : Store} {kept : List Value}
    {node other : Value} (hlooks : origin.LooksLike kept first node second other)
    (hfirst : origin.Retains kept first) (hsecond : origin.Retains kept second) :
    ∃ ties, Ties ties first second ∧ node.Tied ties other ∧
      ∀ value ∈ kept, value.Tied ties value := by
  obtain ⟨ties, hties, hnode, hapart⟩ := hlooks
  let joined ref copy := ties ref copy ∨ ref = copy ∧ origin.LeadsFrom kept ref
  have hwider : ∀ {ref copy}, ties ref copy → joined ref copy := .inl
  refine ⟨joined, ⟨?_, ?_⟩, hnode.mono hwider, ?_⟩
  · rintro ref copy ref' copy' (htied | ⟨rfl, hkept⟩) (htied' | ⟨rfl, hkept'⟩)
    · exact hties.pairs htied htied'
    · constructor
      · rintro rfl
        exact (hapart ref copy htied (.inl hkept')).symm
      · rintro rfl
        exact hapart ref copy htied (.inr hkept')
    · constructor
      · rintro rfl
        exact hapart ref copy' htied' (.inl hkept)
      · rintro rfl
        exact (hapart ref' ref htied' (.inr hkept)).symm
    · rfl
  · rintro ref copy (htied | ⟨rfl, hkept⟩)
    · have hcells := hties.cells htied
      generalize first.get? ref = cell at hcells ⊢
      generalize second.get? copy = other at hcells ⊢
      cases hcells with
      | none => exact .none
      | some hcell => exact .some (hcell.mono hwider)
    · rw [hfirst.cells ref hkept, hsecond.cells ref hkept]
      cases hget : origin.get? ref with
      | none => exact .none
      | some cell =>
        refine .some (Cell.tied_self fun part hpart => Value.tied_self fun inner hinner => ?_)
        have hleads : origin.Leads part.2 inner := by
          rw [hinner]
          exact .here inner
        exact .inr ⟨rfl, hkept.part hget hpart hleads⟩
  · intro value hvalue
    apply Value.tied_self
    rintro ref rfl
    exact .inr ⟨rfl, _, hvalue, .here ref⟩

end Store

variable {σ : Type}

/-- A function of the caller only answers, with the same truth at two places in
    two worlds, or fails alike. -/
def AnswersAlike (host : Host σ) (function : Nat) (place other : Place)
    (first second : World σ) : Prop :=
  ∃ answer again : Except Fault Value,
    Act.call host function (.atPlace place) first = Act.ofExcept answer first ∧
    Act.call host function (.atPlace other) second = Act.ofExcept again second ∧
    answer.map first.store.isTrue = again.map second.store.isTrue

/-- Two activities only answer, the second one what the first one does unless
    that ran out of depth. -/
def SettleAlike (first second : World σ) (act rival : Act σ Bool) : Prop :=
  ∃ verdict again : Except Fault Bool, act first = Act.ofExcept verdict first ∧
    rival second = Act.ofExcept again second ∧ Deepens verdict again

section Checks

variable {ties : Ref → Ref → Prop} {host : Host σ} {place other : Place} {first second : World σ}

theorem SettleAlike.pure (answer : Bool) :
    SettleAlike first second (Pure.pure answer) (Pure.pure answer) :=
  ⟨.ok answer, .ok answer, rfl, rfl, .refl _⟩

theorem SettleAlike.guard {act rival rest others : Act σ Bool}
    (hact : SettleAlike first second act rival) (hrest : SettleAlike first second rest others) :
    SettleAlike first second (do if ← act then Pure.pure true else rest)
      (do if ← rival then Pure.pure true else others) := by
  obtain ⟨verdict, again, hverdict, hagain, hdeepens⟩ := hact
  obtain ⟨later, later', hlater, hlater', hothers⟩ := hrest
  refine ⟨verdict >>= fun passed => if passed then .ok true else later,
    again >>= fun passed => if passed then .ok true else later', ?_, ?_, ?_⟩
  · simp only [bind, EStateM.bind, hverdict]
    cases verdict with
    | error fault => rfl
    | ok passed =>
      cases passed with
      | true => rfl
      | false => exact hlater
  · simp only [bind, EStateM.bind, hagain]
    cases again with
    | error fault => rfl
    | ok passed =>
      cases passed with
      | true => rfl
      | false => exact hlater'
  · apply hdeepens.bind
    intro passed
    cases passed with
    | true => exact .refl _
    | false => exact hothers

mutual

/-- A check whose values look alike asks the same of nodes that look alike. -/
theorem Check.test_settles (hties : Store.Ties ties first.store second.store)
    (hsize : first.store.size ≤ second.store.size) (hnode : place.node.Tied ties other.node)
    (check : Check) (hvalues : ∀ value ∈ check.values, value.Tied ties value)
    (hanswers : ∀ function, .predicate function ∈ check.leaves →
      AnswersAlike host function place other first second) :
    SettleAlike first second (check.test host place) (check.test host other) := by
  match check with
  | .anything => exact .pure true
  | .nothing => exact .pure false
  | .abstract => exact ⟨.error (.of .abstractCheck), _, rfl, rfl, .refl _⟩
  | .typeName name =>
    exact ⟨_, _, rfl, rfl, hties.equal_deepens hsize (hties.typeOf_tied hnode) (.scalar name)⟩
  | .properties fields =>
    have hfields : List.Forall₂ (FieldsTied ties) fields fields :=
      List.forall₂_same.mpr fun field hfield => ⟨rfl, hvalues _ (List.mem_map_of_mem hfield)⟩
    exact ⟨_, _, rfl, rfl, hties.hasAll_deepens hsize hnode hfields⟩
  | .pattern entries =>
    have hentries : List.Forall₂ (FieldsTied ties) entries entries :=
      List.forall₂_same.mpr fun entry hentry => ⟨rfl, hvalues _ (List.mem_map_of_mem hentry)⟩
    exact ⟨_, _, rfl, rfl, hties.hasEntries_deepens hsize hnode hentries⟩
  | .predicate function =>
    obtain ⟨answer, again, hanswer, hagain, htruth⟩ := hanswers function (.head _)
    refine ⟨answer.map first.store.isTrue, again.map second.store.isTrue, ?_, ?_, .inr htruth.symm⟩
    · simp only [test, bind, EStateM.bind, hanswer]
      cases answer <;> rfl
    · simp only [test, bind, EStateM.bind, hagain]
      cases again <;> rfl
  | .anyOf checks => exact testAny_settles hties hsize hnode checks hvalues hanswers

theorem Check.testAny_settles (hties : Store.Ties ties first.store second.store)
    (hsize : first.store.size ≤ second.store.size) (hnode : place.node.Tied ties other.node)
    (checks : List Check) (hvalues : ∀ value ∈ valuesOfAll checks, value.Tied ties value)
    (hanswers : ∀ function, .predicate function ∈ leavesOfAll checks →
      AnswersAlike host function place other first second) :
    SettleAlike first second (testAny host place checks) (testAny host other checks) := by
  match checks with
  | [] => exact .pure false
  | check :: rest =>
    have hfirst := test_settles hties hsize hnode check
      (fun value hvalue => hvalues value (List.mem_append_left _ hvalue))
      (fun function hleaf => hanswers function (List.mem_append_left _ hleaf))
    have hrest := testAny_settles hties hsize hnode rest
      (fun value hvalue => hvalues value (List.mem_append_right _ hvalue))
      (fun function hleaf => hanswers function (List.mem_append_right _ hleaf))
    rw [testAny, testAny]
    exact hfirst.guard hrest

end

end Checks

section Values

theorem Check.valuesOfAll_append (checks others : List Check) :
    valuesOfAll (checks ++ others) = valuesOfAll checks ++ valuesOfAll others := by
  induction checks with
  | nil => rfl
  | cons check rest ih => rw [List.cons_append, valuesOfAll, valuesOfAll, ih, List.append_assoc]

mutual

theorem Check.valuesOfAll_leaves : ∀ check : Check, valuesOfAll check.leaves = check.values
  | .anyOf checks => valuesOfAll_leavesOfAll checks
  | .properties _ | .pattern _ => List.append_nil _
  | .anything | .nothing | .typeName _ | .predicate _ | .abstract => rfl

theorem Check.valuesOfAll_leavesOfAll :
    ∀ checks : List Check, valuesOfAll (leavesOfAll checks) = valuesOfAll checks
  | [] => rfl
  | check :: rest => by
    rw [leavesOfAll, valuesOfAll_append, valuesOfAll_leaves check, valuesOfAll_leavesOfAll rest,
      valuesOfAll]

end

/-- The values under the keys of the patterns that the leaves of a test are, or
    that were converted before. -/
def Check.patternValues (store : Store) (leaves : List Value) : List Value :=
  valuesOfAll (leaves.flatMap (ofLeaf store))

theorem Check.exists_leaf_of_mem {store : Store} {leaves : List Value} {value : Value}
    (hvalue : value ∈ patternValues store leaves) :
    ∃ leaf ∈ leaves, value ∈ valuesOfAll (ofLeaf store leaf) := by
  induction leaves with
  | nil => cases hvalue
  | cons leaf rest ih =>
    rw [patternValues, List.flatMap_cons, valuesOfAll_append, List.mem_append] at hvalue
    rcases hvalue with hfirst | hrest
    · exact ⟨leaf, .head _, hfirst⟩
    · obtain ⟨found, hfound, hvalue⟩ := ih hrest
      exact ⟨found, .tail _ hfound, hvalue⟩

/-- The values of a pattern are parts of the cell that it stands in. -/
theorem Check.exists_cell_of_mem {store : Store} {leaf value : Value}
    (hvalue : value ∈ valuesOfAll (ofLeaf store leaf)) :
    ∃ ref cell, store.get? ref = some cell ∧ (Role.data, value) ∈ cell.parts .data := by
  cases leaf with
  | function f => cases hvalue
  | scalar s => cases s <;> cases hvalue
  | cell ref =>
    cases hget : store.get? ref with
    | none => simp [ofLeaf, read, hget, valuesOfAll, values] at hvalue
    | some cell =>
      refine ⟨ref, cell, hget, ?_⟩
      cases cell with
      | mapping fields =>
        simp only [ofLeaf, read, hget, valuesOfAll_leaves, values, List.mem_map] at hvalue
        obtain ⟨field, hfield, rfl⟩ := hvalue
        exact List.mem_map_of_mem hfield
      | table entries =>
        simp only [ofLeaf, read, hget, valuesOfAll_leaves, values, List.mem_map] at hvalue
        obtain ⟨entry, hentry, rfl⟩ := hvalue
        exact List.mem_map.mpr ⟨entry, hentry, by rw [Role.ofEntry_data]⟩
      | check check =>
        simp only [ofLeaf, read, hget, valuesOfAll_leaves] at hvalue
        exact List.mem_map_of_mem hvalue
      | _ => simp [ofLeaf, read, hget, valuesOfAll, values] at hvalue

end Values

section Nodes

variable {origin first second : Store} {kept : List Value}

/-- A node that is as it was looks like itself. -/
theorem Store.looksLike_self {node : Value}
    (hsame : ∀ ref, first.Leads node ref → second.get? ref = first.get? ref) :
    origin.LooksLike kept first node second node := by
  refine ⟨fun ref copy => ref = copy ∧ first.Leads node ref, ⟨?_, ?_⟩, ?_, ?_⟩
  · rintro ref copy ref' copy' ⟨rfl, _⟩ ⟨rfl, _⟩
    rfl
  · rintro ref copy ⟨rfl, hleads⟩
    rw [hsame ref hleads]
    cases hget : first.get? ref with
    | none => exact .none
    | some cell =>
      refine .some (Cell.tied_self fun part hpart => Value.tied_self fun inner hinner => ?_)
      have hnode : first.LeadsFrom [node] ref := ⟨node, .head _, hleads⟩
      have hinside : first.LeadsFrom [node] inner :=
        hnode.part hget hpart (by rw [hinner]; exact .here inner)
      obtain ⟨_, hmem, hinside⟩ := hinside
      cases List.mem_singleton.mp hmem
      exact ⟨rfl, hinside⟩
  · apply Value.tied_self
    rintro ref rfl
    exact ⟨rfl, .here ref⟩
  · rintro ref copy ⟨rfl, _⟩ _
    rfl

/-- The addresses of two stores that lie equally far above two others. -/
def Shifted (base other : Nat) (ref copy : Ref) : Prop :=
  ∃ n, ref.address = base + n ∧ copy.address = other + n

/-- Two stores that were alike in what they hold from two addresses on. -/
structure Store.GrownAlike (base other : Nat) (first second : Store) : Prop where
  sizes : ∃ n, first.size = base + n ∧ second.size = other + n
  cells : ∀ {ref copy}, Shifted base other ref copy →
    Option.Rel (Cell.Tied (Shifted base other)) (first.get? ref) (second.get? copy)

theorem Store.GrownAlike.alloc {base other : Nat} {cell copy : Cell}
    (hgrown : GrownAlike base other first second) (hcell : cell.Tied (Shifted base other) copy) :
    GrownAlike base other (first.alloc cell).2 (second.alloc copy).2 ∧
      (first.alloc cell).1.Tied (Shifted base other) (second.alloc copy).1 := by
  obtain ⟨n, hfirst, hsecond⟩ := hgrown.sizes
  refine ⟨⟨⟨n + 1, ?_, ?_⟩, ?_⟩, .cell ⟨n, hfirst, hsecond⟩⟩
  · rw [size_alloc, hfirst, Nat.add_assoc]
  · rw [size_alloc, hsecond, Nat.add_assoc]
  · intro ref twin hshifted
    obtain ⟨m, href, htwin⟩ := hshifted
    rw [get?_alloc, get?_alloc, href, htwin, hfirst, hsecond]
    simp only [Nat.add_left_cancel_iff]
    split
    · exact .some hcell
    · exact hgrown.cells ⟨m, href, htwin⟩

mutual

/-- A datum that is put into two stores looks the same in both. -/
theorem Datum.build_grownAlike {base other : Nat} (datum : Datum) {first second : Store}
    (hgrown : Store.GrownAlike base other first second) :
    Store.GrownAlike base other (datum.build first).2 (datum.build second).2 ∧
      (datum.build first).1.Tied (Shifted base other) (datum.build second).1 := by
  match datum with
  | .scalar s => exact ⟨hgrown, .scalar s⟩
  | .list items =>
    obtain ⟨hboth, hitems⟩ := buildItems_grownAlike items hgrown
    exact hboth.alloc (.list hitems)
  | .tuple items =>
    obtain ⟨hboth, hitems⟩ := buildItems_grownAlike items hgrown
    exact hboth.alloc (.tuple hitems)
  | .mapping fields =>
    obtain ⟨hboth, hfields⟩ := buildFields_grownAlike fields hgrown
    exact hboth.alloc (.mapping hfields)

theorem Datum.buildItems_grownAlike {base other : Nat} (items : List Datum) {first second : Store}
    (hgrown : Store.GrownAlike base other first second) :
    Store.GrownAlike base other (buildItems items first).2 (buildItems items second).2 ∧
      List.Forall₂ (Value.Tied (Shifted base other)) (buildItems items first).1
        (buildItems items second).1 := by
  match items with
  | [] => exact ⟨hgrown, .nil⟩
  | item :: rest =>
    obtain ⟨hone, hitem⟩ := build_grownAlike item hgrown
    obtain ⟨hall, hitems⟩ := buildItems_grownAlike rest hone
    exact ⟨hall, .cons hitem hitems⟩

theorem Datum.buildFields_grownAlike {base other : Nat} (fields : List (String × Datum))
    {first second : Store} (hgrown : Store.GrownAlike base other first second) :
    Store.GrownAlike base other (buildFields fields first).2 (buildFields fields second).2 ∧
      List.Forall₂ (FieldsTied (Shifted base other)) (buildFields fields first).1
        (buildFields fields second).1 := by
  match fields with
  | [] => exact ⟨hgrown, .nil⟩
  | (key, datum) :: rest =>
    obtain ⟨hone, hvalue⟩ := build_grownAlike datum hgrown
    obtain ⟨hall, hfields⟩ := buildFields_grownAlike rest hone
    exact ⟨hall, .cons ⟨rfl, hvalue⟩ hfields⟩

end

/-- A node of plain data looks the same whenever it is made. -/
theorem Datum.build_looksLike (datum : Datum)
    (hheld : ∀ ref, origin.LeadsFrom kept ref → ref.address < origin.size)
    (hfirst : origin.size ≤ first.size) (hsecond : origin.size ≤ second.size) :
    origin.LooksLike kept (datum.build first).2 (datum.build first).1 (datum.build second).2
      (datum.build second).1 := by
  have hnone : ∀ {store : Store} {ref : Ref}, store.size ≤ ref.address → store.get? ref = none :=
    fun habove => Array.getElem?_eq_none habove
  have hstart : Store.GrownAlike first.size second.size first second := by
    refine ⟨⟨0, rfl, rfl⟩, ?_⟩
    rintro ref copy ⟨n, href, hcopy⟩
    rw [hnone (by omega), hnone (by omega)]
    exact .none
  obtain ⟨hgrown, hnode⟩ := datum.build_grownAlike hstart
  refine ⟨_, ⟨?_, hgrown.cells⟩, hnode, ?_⟩
  · rintro ⟨ref⟩ ⟨copy⟩ ⟨ref'⟩ ⟨copy'⟩ ⟨n, href, hcopy⟩ ⟨m, href', hcopy'⟩
    simp only [Ref.mk.injEq] at href hcopy href' hcopy' ⊢
    omega
  · rintro ref copy ⟨n, href, hcopy⟩ (hkept | hkept)
    · have hlow := hheld ref hkept
      omega
    · have hlow := hheld copy hkept
      omega

end Nodes

/-- A converted check is a snapshot of its test: whatever is done to the lists
    and pattern mappings of the test, short of reaching inside a value under a
    pattern's key, the check gives a node the verdict it gives, before that, a
    node that looks the same, unless a comparison ran out of depth there. There is
    such a check unless a leaf that is no test cannot be reported. -/
theorem converted_check_is_snapshot (host : Host σ) (test : Value) (world : World σ)
    (leaves : List Value) (hclosed : world.store.Closed)
    (hflattens : world.store.Flattens test leaves) :
    Converts Check.leaves leaves world (Check.convert test world) ∧
      ∀ (check : Check) (converted : World σ), Check.convert test world = .ok check converted →
      ∀ (first later : World σ) (place other : Place),
        world.store.Edited test (Check.patternValues world.store leaves) first.store →
        world.store.Edited test (Check.patternValues world.store leaves) later.store →
        first.store.size ≤ later.store.size →
        world.store.LooksLike (Check.patternValues world.store leaves)
          first.store place.node later.store other.node →
        (∀ function, .predicate function ∈ leaves.flatMap (Check.ofLeaf world.store) →
          AnswersAlike host function place other first later) →
        SettleAlike first later (check.test host place) (check.test host other) := by
  refine ⟨hflattens.convert world, ?_⟩
  intro check converted hconvert
  obtain ⟨_, hleaves, _⟩ := hflattens.leaves_of_convert hconvert
  intro first later place other hfirst hlater hsize hlooks hanswers
  have hheld : ∀ ref, world.store.LeadsFrom (Check.patternValues world.store leaves) ref →
      ref.address < world.store.size := by
    rintro ref ⟨value, hvalue, hleads⟩
    obtain ⟨leaf, _, hmem⟩ := Check.exists_leaf_of_mem hvalue
    obtain ⟨holder, cell, hget, hpart⟩ := Check.exists_cell_of_mem hmem
    exact hleads.held hclosed (hclosed holder cell hget _ hpart)
  obtain ⟨ties, hties, hnode, hkept⟩ :=
    hlooks.exists_ties (hfirst.retains hheld) (hlater.retains hheld)
  apply Check.test_settles hties hsize hnode check
  · rw [← Check.valuesOfAll_leaves, hleaves]
    exact hkept
  · rw [hleaves]
    exact hanswers

section Tagged

/-- A test at the address 2: a pattern that expects a list of tags, or a type. -/
def tagged : Store :=
  ⟨#[.list [.int 1], .mapping [("tags", .cell ⟨0⟩)], .list [.cell ⟨1⟩, .text "heading"]]⟩

/-- A node with these tags. -/
def tagNode : Datum :=
  .mapping [("type", .scalar (.text "item")), ("tags", .list [.scalar (.int 1)])]

/-- The test with a node put beside it, at the address 4. -/
def labelled : Store :=
  (tagNode.build tagged).2

/-- Then the pattern's tags are set to something else, the type is deleted from
    the list and another one is appended to it. -/
def relabelled : Store :=
  let set := (DataEdit.set [.place 0, .key "tags"] (.int 7)).apply labelled (.cell ⟨2⟩)
  let erased := (DataEdit.erase [.place 1]).apply set (.cell ⟨2⟩)
  (DataEdit.append [] (.text "list")).apply erased (.cell ⟨2⟩)

theorem tagged_flattens : tagged.Flattens (.cell ⟨2⟩) [.cell ⟨1⟩, .text "heading"] :=
  .members rfl (.cons (.of_plain rfl) (.cons (.of_plain rfl) .nil))

theorem tagged_closed : tagged.Closed := by
  intro ref cell hget part hpart
  match ref, hget with
  | ⟨0⟩, hget =>
    cases hget
    cases List.mem_singleton.mp hpart
    trivial
  | ⟨1⟩, hget =>
    cases hget
    cases List.mem_singleton.mp hpart
    exact ⟨_, rfl⟩
  | ⟨2⟩, hget =>
    cases hget
    rcases List.mem_cons.mp hpart with rfl | hrest
    · exact ⟨_, rfl⟩
    · cases List.mem_singleton.mp hrest
      trivial

/-- The pattern shares its list of tags with the test, and nothing else. -/
theorem tagged_shared {ref : Ref}
    (hkept : tagged.LeadsFrom
      (Check.patternValues tagged [.cell ⟨1⟩, .text "heading"]) ref) : ref = ⟨0⟩ := by
  obtain ⟨value, hvalue, hleads⟩ := hkept
  cases List.mem_singleton.mp hvalue
  cases hleads with
  | here => rfl
  | part hget hpart hleads =>
    cases hget
    cases List.mem_singleton.mp hpart
    cases hleads

theorem labelled_edited : tagged.Edited (.cell ⟨2⟩)
    (Check.patternValues tagged [.cell ⟨1⟩, .text "heading"]) labelled :=
  .build tagNode .start

theorem relabelled_edited : tagged.Edited (.cell ⟨2⟩)
    (Check.patternValues tagged [.cell ⟨1⟩, .text "heading"]) relabelled := by
  unfold relabelled
  refine .edit _ (.edit _ (.edit _ labelled_edited ?_) ?_) ?_
  · intro ref hcontainer hkept
    cases tagged_shared hkept
    cases hcontainer
  · intro ref hcontainer hkept
    cases tagged_shared hkept
    cases hcontainer
  · intro ref hcontainer hkept
    cases tagged_shared hkept
    cases hcontainer

/-- The node is not among what is edited. -/
theorem relabelled_node {ref : Ref} (hleads : labelled.Leads (.cell ⟨4⟩) ref) :
    relabelled.get? ref = labelled.get? ref := by
  cases hleads with
  | here => rfl
  | part hget hpart hleads =>
    cases hget
    rcases List.mem_cons.mp hpart with rfl | hrest
    · cases hleads
    · cases List.mem_singleton.mp hrest
      cases hleads with
      | here => rfl
      | part hget hpart hleads =>
        cases hget
        cases List.mem_singleton.mp hpart
        cases hleads

theorem converted_check_is_snapshot_tagged :
    tagged.Closed ∧ tagged.Flattens (.cell ⟨2⟩) [.cell ⟨1⟩, .text "heading"] ∧
    (∃ check, Check.convert (.cell ⟨2⟩) (⟨tagged, [], ()⟩ : World Unit) =
        .ok check ⟨tagged, [], ()⟩ ∧
      SettleAlike ⟨labelled, [], ()⟩ ⟨relabelled, [], ()⟩
        (check.test Collect.noHost ⟨.cell ⟨4⟩, .null, .null⟩)
        (check.test Collect.noHost ⟨.cell ⟨4⟩, .null, .null⟩) ∧
      SettleAlike ⟨labelled, [], ()⟩ ⟨(tagNode.build relabelled).2, [], ()⟩
        (check.test Collect.noHost ⟨.cell ⟨4⟩, .null, .null⟩)
        (check.test Collect.noHost ⟨(tagNode.build relabelled).1, .null, .null⟩)) ∧
    Check.isMatch Collect.noHost ⟨.cell ⟨4⟩, .null, .null⟩ (.cell ⟨2⟩) ⟨labelled, [], ()⟩ =
      .ok true ⟨labelled, [], ()⟩ ∧
    Check.isMatch Collect.noHost ⟨.cell ⟨4⟩, .null, .null⟩ (.cell ⟨2⟩) ⟨relabelled, [], ()⟩ =
      .ok false ⟨relabelled, [], ()⟩ := by
  have hsnapshot := (converted_check_is_snapshot Collect.noHost (.cell ⟨2⟩)
    ⟨tagged, [], ()⟩ _ tagged_closed tagged_flattens).2 _ _ rfl
  have hdata : ∀ function, .predicate function ∉
      [Value.cell ⟨1⟩, .text "heading"].flatMap (Check.ofLeaf tagged) := by
    intro function hmem
    simp [Check.ofLeaf, Check.read, Check.leaves, tagged, Store.get?] at hmem
  refine ⟨tagged_closed, tagged_flattens, ⟨_, rfl, ?_, ?_⟩, rfl, rfl⟩
  · apply hsnapshot _ _ _ _ labelled_edited relabelled_edited
    · decide
    · exact Store.looksLike_self fun ref => relabelled_node
    · exact fun function hmem => (hdata function hmem).elim
  · apply hsnapshot _ _ _ _ labelled_edited (.build tagNode relabelled_edited)
    · decide
    · exact tagNode.build_looksLike (fun ref hkept => by rw [tagged_shared hkept]; decide)
        (by decide) (by decide)
    · exact fun function hmem => (hdata function hmem).elim

end Tagged

end Lineage
