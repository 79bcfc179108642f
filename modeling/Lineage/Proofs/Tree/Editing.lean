import Lineage.Edit
import Lineage.Proofs.Store.Growth
import Lineage.Proofs.Tree.InStore

namespace Lineage

mutual

/-- The nodes of a tree, without the gaps. -/
def Tree.nodes : Tree → List Value
  | .gap => []
  | .node value children => value :: Tree.nodesOfAll children

def Tree.nodesOfAll : List Tree → List Value
  | [] => []
  | child :: rest => child.nodes ++ Tree.nodesOfAll rest

end

/-- A value is a scalar or function, or its address is in use. -/
def Store.Holds (store : Store) : Value → Prop
  | .cell ref => ∃ cell, store.get? ref = some cell
  | _ => True

/-- Every cell is as it was, except that the lists for which `may` holds, given
    their members, may have others now. -/
def Store.KeepsUnless (may : Value → List Value → Prop) (store later : Store) : Prop :=
  ∀ ref cell, store.get? ref = some cell →
    later.get? ref = some cell ∨
      ∃ items others, cell = .list items ∧ later.get? ref = some (.list others) ∧
        may (.cell ref) items

namespace Store

variable {store middle later : Store} {may other : Value → List Value → Prop} {value list : Value}
  {items : List Value}

theorem Extends.keepsUnless (hextends : store.Extends later) : store.KeepsUnless may later :=
  fun ref cell hget => Or.inl (hextends ref cell hget)

theorem KeepsUnless.mono (hkeeps : store.KeepsUnless may later)
    (hother : ∀ list items, may list items → other list items) : store.KeepsUnless other later := by
  intro ref cell hget
  rcases hkeeps ref cell hget with hsame | ⟨items, others, hcell, hlater, hmay⟩
  · exact Or.inl hsame
  · exact Or.inr ⟨items, others, hcell, hlater, hother _ _ hmay⟩

theorem KeepsUnless.trans (hfirst : store.KeepsUnless may middle)
    (hsecond : middle.KeepsUnless other later) :
    store.KeepsUnless (fun list items => may list items ∨ other list items) later := by
  intro ref cell hget
  rcases hfirst ref cell hget with hsame | ⟨items, others, rfl, hmiddle, hmay⟩
  · exact hsecond.mono (fun _ _ => Or.inr) ref cell hsame
  · right
    rcases hsecond ref _ hmiddle with hsame | ⟨_, last, _, hlater, _⟩
    · exact ⟨items, others, rfl, hsame, Or.inl hmay⟩
    · exact ⟨items, last, rfl, hlater, Or.inl hmay⟩

theorem KeepsUnless.holds (hkeeps : store.KeepsUnless may later) (hheld : store.Holds value) :
    later.Holds value := by
  cases value with
  | scalar s => trivial
  | function f => trivial
  | cell ref =>
    obtain ⟨cell, hget⟩ := hheld
    rcases hkeeps ref cell hget with hsame | ⟨_, others, _, hlater, _⟩
    · exact ⟨cell, hsame⟩
    · exact ⟨_, hlater⟩

/-- Lists have no properties, so changes to lists change none. -/
theorem KeepsUnless.property?_eq (hkeeps : store.KeepsUnless may later) (hheld : store.Holds value)
    (key : String) : later.property? value key = store.property? value key := by
  cases value with
  | scalar s => cases s <;> rfl
  | function f => rfl
  | cell ref =>
    obtain ⟨cell, hget⟩ := hheld
    show (later.get? ref).bind _ = (store.get? ref).bind _
    rcases hkeeps ref cell hget with hsame | ⟨items, others, rfl, hlater, _⟩
    · rw [hsame, hget]
    · rw [hlater, hget]
      rfl

theorem KeepsUnless.children_eq (hkeeps : store.KeepsUnless may later) (hheld : store.Holds value) :
    later.children value = store.children value := by
  rw [children, children, hkeeps.property?_eq hheld]

theorem KeepsUnless.list_eq (hkeeps : store.KeepsUnless may later)
    (hlist : store.cell? list = some (.list items)) (hnot : ¬may list items) :
    later.cell? list = some (.list items) := by
  cases list with
  | scalar s => cases hlist
  | function f => cases hlist
  | cell ref =>
    rcases hkeeps ref _ hlist with hsame | ⟨_, _, hcell, _, hmay⟩
    · exact hsame
    · cases hcell
      exact (hnot hmay).elim

/-- Changing a list changes no other cell. -/
theorem updateItems_keepsUnless {f : List Value → List Value}
    (hlist : store.cell? list = some (.list items))
    (hextends : (store.updateItems list f).Extends later) :
    store.KeepsUnless (fun changed members => changed = list ∧ members = items) later ∧
      later.cell? list = some (.list (f items)) := by
  cases list with
  | scalar s => cases hlist
  | function f => cases hlist
  | cell changed =>
    have hget : store.get? changed = some (.list items) := hlist
    have hput : store.updateItems (.cell changed) f = store.put changed (.list (f items)) := by
      simp only [updateItems, hget]
    rw [hput] at hextends
    have hself := hextends changed _
      (get?_put_self store changed (.list (f items)) (address_lt_of_get? hget))
    refine ⟨?_, hself⟩
    intro ref cell hcell
    by_cases hsame : changed = ref
    · subst hsame
      rw [hget] at hcell
      cases hcell
      exact Or.inr ⟨items, f items, rfl, hself, rfl, rfl⟩
    · refine Or.inl (hextends ref cell ?_)
      rw [get?_put_of_ne store changed ref _ hsame, hcell]

end Store

/-- A forest in a store: its trees stand there, the addresses of their nodes are
    in use, and no node occurs twice. -/
structure Planted (store : Store) (forest : List Tree) : Prop where
  stands : ∀ tree ∈ forest, tree.StandsIn (· = store)
  gaps : ∀ tree ∈ forest, tree.value = .null → tree = .gap
  held : ∀ value ∈ Tree.nodesOfAll forest, store.Holds value
  nodup : (Tree.nodesOfAll forest).Nodup

namespace Tree

variable {store : Store} {value : Value} {children first second : List Tree}

theorem nodesOfAll_append :
    nodesOfAll (first ++ second) = nodesOfAll first ++ nodesOfAll second := by
  induction first with
  | nil => rfl
  | cons child rest ih => rw [List.cons_append, nodesOfAll, nodesOfAll, ih, List.append_assoc]

theorem nodesOfAll_singleton (tree : Tree) : nodesOfAll [tree] = tree.nodes := by
  rw [nodesOfAll, nodesOfAll, List.append_nil]

theorem mem_nodesOfAll : value ∈ nodesOfAll children ↔ ∃ child ∈ children, value ∈ child.nodes := by
  induction children with
  | nil => simp [nodesOfAll]
  | cons child rest ih => simp [nodesOfAll, ih]

/-- An entry among children is one of their nodes or a gap. -/
theorem value_mem_nodesOfAll {child : Tree} (hmem : child ∈ children) (hnode : child ≠ .gap) :
    child.value ∈ nodesOfAll children := by
  refine mem_nodesOfAll.mpr ⟨child, hmem, ?_⟩
  cases child with
  | gap => exact (hnode rfl).elim
  | node value children => exact List.mem_cons_self

theorem spotsOfAll_singleton {prune : Spot → Bool} {reverse : Bool} {path : List Nat}
    {parent : Value} {lineage : List Value} {index : Nat} (tree : Tree) :
    spotsOfAll prune reverse path parent lineage index [tree] =
      tree.spotsUnless prune reverse (index :: path) (.int index) parent lineage := by
  simp [spotsOfAll]

/-- A node of a standing tree has its children in a list, or else none. -/
theorem StandsIn.node_cases (hstands : (Tree.node value children).StandsIn (· = store)) :
    (store.children value = .null ∧ children = []) ∨
      store.cell? (store.children value) = some (.list (children.map Tree.value)) := by
  cases hstands with
  | leaf hleaf => exact Or.inl ⟨hleaf store rfl, rfl⟩
  | parent hlist _ _ => exact Or.inr (hlist store rfl)

theorem StandsIn.children_stand (hstands : (Tree.node value children).StandsIn (· = store)) :
    (∀ child ∈ children, child.StandsIn (· = store)) ∧
      ∀ child ∈ children, child.value = .null → child = .gap := by
  cases hstands with
  | leaf _ => simp
  | parent _ hgaps hchildren => exact ⟨hchildren, hgaps⟩

/-- A tree stands as before if no list of its nodes may have been changed. -/
theorem StandsIn.kept {later : Store} {may : Value → List Value → Prop} {tree : Tree}
    (hstands : tree.StandsIn (· = store)) (hkeeps : store.KeepsUnless may later)
    (hheld : ∀ node ∈ tree.nodes, store.Holds node)
    (hnot : ∀ node ∈ tree.nodes, ∀ items, store.cell? (store.children node) = some (.list items) →
      ¬may (store.children node) items) : tree.StandsIn (· = later) := by
  induction hstands with
  | gap => exact .gap
  | @leaf value hleaf =>
    refine .leaf ?_
    rintro _ rfl
    rw [hkeeps.children_eq (hheld value (by simp [nodes]))]
    exact hleaf store rfl
  | @parent value children hlist hgaps _ ih =>
    rw [nodes, List.forall_mem_cons] at hheld hnot
    refine .parent ?_ hgaps ?_
    · rintro _ rfl
      rw [hkeeps.children_eq hheld.1]
      exact hkeeps.list_eq (hlist store rfl) (hnot.1 _ (hlist store rfl))
    · intro child hchild
      refine ih child hchild ?_ ?_
      · intro node hnode
        exact hheld.2 node (mem_nodesOfAll.mpr ⟨child, hchild, hnode⟩)
      · intro node hnode
        exact hnot.2 node (mem_nodesOfAll.mpr ⟨child, hchild, hnode⟩)

/-- Nodes below the top of a standing tree are not null. -/
theorem StandsIn.null_notMem {kept : Store → Prop} {tree : Tree} (hstands : tree.StandsIn kept)
    (hgap : tree.value = .null → tree = .gap) : .null ∉ tree.nodes := by
  induction hstands with
  | gap => simp [nodes]
  | @leaf value hleaf =>
    have hne : value ≠ .null := fun hnull => by cases hgap hnull
    simpa [nodes, nodesOfAll] using hne.symm
  | @parent value children _ hgaps _ ih =>
    have hne : value ≠ .null := fun hnull => by cases hgap hnull
    rw [nodes, List.mem_cons, not_or]
    refine ⟨hne.symm, ?_⟩
    intro hmem
    obtain ⟨child, hchild, hnull⟩ := mem_nodesOfAll.mp hmem
    exact ih child hchild (hgaps child hchild) hnull

mutual

/-- Walking a tree in either direction comes by its nodes. -/
theorem map_spotsUnless_perm (reverse : Bool) : ∀ (tree : Tree) (path : List Nat)
    (index parent : Value) (lineage : List Value),
    ((tree.spotsUnless (fun _ => false) reverse path index parent lineage).map
      fun spot => spot.place.node).Perm tree.nodes
  | .gap, _, _, _, _ => by
    simp [spotsUnless, nodes]
  | .node value children, path, _, _, lineage => by
    have hbelow := map_spotsOfAll_perm reverse children path value (value :: lineage) 0
    simpa [spotsUnless, nodes] using hbelow

theorem map_spotsOfAll_perm (reverse : Bool) : ∀ (children : List Tree) (path : List Nat)
    (parent : Value) (lineage : List Value) (first : Nat),
    ((spotsOfAll (fun _ => false) reverse path parent lineage first children).map
      fun spot => spot.place.node).Perm (nodesOfAll children)
  | [], _, _, _, _ => by
    simp [spotsOfAll, nodesOfAll]
  | child :: rest, path, parent, lineage, first => by
    have hhere := map_spotsUnless_perm reverse child (first :: path) (.int first) parent lineage
    have hothers := map_spotsOfAll_perm reverse rest path parent lineage (first + 1)
    rw [spotsOfAll, nodesOfAll]
    split
    · rw [List.map_append]
      exact (hothers.append hhere).trans List.perm_append_comm
    · rw [List.map_append]
      exact hhere.append hothers

end

end Tree

namespace Planted

variable {store : Store} {child : Tree} {rest : List Tree} {value : Value} {children : List Tree}

theorem of_node (hstands : (Tree.node value children).StandsIn (· = store))
    (hheld : ∀ node ∈ (Tree.node value children).nodes, store.Holds node)
    (hnodup : (Tree.node value children).nodes.Nodup) : Planted store children := by
  rw [Tree.nodes] at hheld hnodup
  exact ⟨hstands.children_stand.1, hstands.children_stand.2, (List.forall_mem_cons.mp hheld).2,
    (List.nodup_cons.mp hnodup).2⟩

theorem null_notMem {forest : List Tree} (hplanted : Planted store forest) :
    .null ∉ Tree.nodesOfAll forest := by
  intro hmem
  obtain ⟨tree, htree, hnull⟩ := Tree.mem_nodesOfAll.mp hmem
  exact (hplanted.stands tree htree).null_notMem (hplanted.gaps tree htree) hnull

theorem append_iff {first second : List Tree} :
    Planted store (first ++ second) ↔
      Planted store first ∧ Planted store second ∧
        ∀ node ∈ Tree.nodesOfAll first, node ∉ Tree.nodesOfAll second := by
  constructor
  · rintro ⟨hstands, hgaps, hheld, hnodup⟩
    rw [Tree.nodesOfAll_append] at hheld hnodup
    obtain ⟨hfirst, hsecond, hapart⟩ := List.nodup_append.mp hnodup
    rw [List.forall_mem_append] at hstands hgaps hheld
    refine ⟨⟨hstands.1, hgaps.1, hheld.1, hfirst⟩, ⟨hstands.2, hgaps.2, hheld.2, hsecond⟩, ?_⟩
    intro node hnode hother
    exact hapart node hnode node hother rfl
  · rintro ⟨hfirst, hsecond, hapart⟩
    refine ⟨List.forall_mem_append.mpr ⟨hfirst.stands, hsecond.stands⟩,
      List.forall_mem_append.mpr ⟨hfirst.gaps, hsecond.gaps⟩, ?_, ?_⟩
    · rw [Tree.nodesOfAll_append]
      exact List.forall_mem_append.mpr ⟨hfirst.held, hsecond.held⟩
    · rw [Tree.nodesOfAll_append, List.nodup_append]
      refine ⟨hfirst.nodup, hsecond.nodup, ?_⟩
      rintro node hnode other hother rfl
      exact hapart node hnode hother

end Planted

end Lineage
