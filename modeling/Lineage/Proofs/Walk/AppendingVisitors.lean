import Lineage.Proofs.Walk.AppendingTrace

namespace Lineage

open Level

/-- A tree that stands in a store without sharing: no node occurs twice in it,
    no two nodes have the same list of children, and all addresses are in use. -/
structure Tidy (store : Store) (tree : Tree) : Prop where
  stands : tree.StandsIn (· = store)
  nodup : tree.nodes.Nodup
  apart : ∀ first ∈ tree.nodes, ∀ second ∈ tree.nodes,
    store.children first = store.children second → store.children first ≠ .null → first = second
  held : ∀ node ∈ tree.nodes, store.Holds node

/-- A tree in a store that has no nodes, and no lists of children, in common with
    certain nodes. -/
structure Fresh (store : Store) (nodes : List Value) (branch : Tree) : Prop where
  tidy : Tidy store branch
  gap : branch.value = .null → branch = .gap
  new : ∀ node ∈ branch.nodes, node ∉ nodes
  apart : ∀ node ∈ branch.nodes, ∀ other ∈ nodes,
    store.children node = store.children other → store.children node = .null

/-- One after the other, fresh trees are put at the end of the lists of children
    of some nodes. The trees are counted; before and between, other values may
    be built. -/
inductive Store.Adds (owners : List Value) : List Value → Store → Nat → Store → Prop where
  | none {nodes : List Value} {store later : Store} (hextends : store.Extends later) :
      Adds owners nodes store 0 later
  | more {nodes : List Value} {store built later : Store} {owner : Value} {items : List Value}
      {branch : Tree} {count : Nat} (hbuilt : store.Extends built) (howner : owner ∈ owners)
      (hlist : built.cell? (built.children owner) = some (.list items))
      (hfresh : Fresh built nodes branch)
      (hrest : Adds owners (branch.nodes ++ nodes)
        (built.updateItems (built.children owner) (· ++ [branch.value])) count later) :
      Adds owners nodes store (count + 1) later

section Keeping

variable {store later : Store} {may : Value → Prop}

/-- A tree goes on standing around a node that has got other children, if the
    lists that were changed are not among those around it. -/
theorem Level.standsIn_plug {owner : Value} {children children' : List Tree} {levels : List Level}
    (hstands : (plug (.node owner children) levels).StandsIn (· = store))
    (hkeeps : store.KeepsUnless (fun list _ => may list) later)
    (hheld : ∀ node ∈ nodesAround levels, store.Holds node)
    (hnot : ∀ node ∈ nodesAround levels, ¬may (store.children node))
    (hfocus : (Tree.node owner children').StandsIn (· = later)) :
    (plug (.node owner children') levels).StandsIn (· = later) := by
  induction levels generalizing owner children children' with
  | nil => exact hfocus
  | cons level outer ih =>
    have hparent : (Tree.node level.value (level.before ++ .node owner children :: level.after)).StandsIn
        (· = store) := standsIn_of_plug hstands
    obtain ⟨hchildren, hgaps⟩ := hparent.children_stand
    rw [nodesAround, ← Tree.nodesOfAll_append, List.cons_append, List.forall_mem_cons,
      List.forall_mem_append] at hheld hnot
    refine ih hstands hheld.2.2 hnot.2.2 (.parent ?_ ?_ ?_)
    · rintro _ rfl
      rcases hparent.node_cases with ⟨_, hnone⟩ | hlist
      · simp at hnone
      · rw [hkeeps.children_eq hheld.1]
        simpa [Tree.value] using hkeeps.list_eq hlist hnot.1
    · intro child hchild hnull
      rcases List.mem_append.mp hchild with hbefore | hafter
      · exact hgaps child (List.mem_append_left _ hbefore) hnull
      · rcases List.mem_cons.mp hafter with rfl | hafter
        · cases hgaps (.node owner children) (by simp) hnull
        · exact hgaps child (by simp [hafter]) hnull
    · intro child hchild
      have hsibling : ∀ child ∈ level.before ++ level.after, child.StandsIn (· = later) := by
        intro child hmem
        refine (hchildren child (by grind)).kept hkeeps ?_ ?_
        · exact fun node hnode => hheld.2.1 node (Tree.mem_nodesOfAll.mpr ⟨child, hmem, hnode⟩)
        · exact fun node hnode _ _ => hnot.2.1 node (Tree.mem_nodesOfAll.mpr ⟨child, hmem, hnode⟩)
      rcases List.mem_append.mp hchild with hbefore | hafter
      · exact hsibling child (List.mem_append_left _ hbefore)
      · rcases List.mem_cons.mp hafter with rfl | hafter
        · exact hfocus
        · exact hsibling child (List.mem_append_right _ hafter)

end Keeping

section Graft

variable {store later : Store} {owner : Value} {children : List Tree} {outer : List Level}
  {branch : Tree} {items : List Value}

theorem Tidy.extend {tree : Tree} (htidy : Tidy store tree) (hextends : store.Extends later) :
    Tidy later tree := by
  have hkeeps : store.KeepsUnless (fun _ _ => False) later := hextends.keepsUnless
  refine ⟨htidy.stands.kept hkeeps htidy.held fun _ _ _ _ => id, htidy.nodup, ?_, ?_⟩
  · intro first hfirst second hsecond
    rw [hkeeps.children_eq (htidy.held first hfirst), hkeeps.children_eq (htidy.held second hsecond)]
    exact htidy.apart first hfirst second hsecond
  · exact fun node hnode => hkeeps.holds (htidy.held node hnode)

theorem Tidy.focus {focus : Tree} (htidy : Tidy store (plug focus outer)) : Tidy store focus := by
  have hmem : ∀ node ∈ focus.nodes, node ∈ (plug focus outer).nodes := fun node hnode =>
    mem_nodes_plug.mpr (Or.inl hnode)
  refine ⟨standsIn_of_plug htidy.stands, ?_, ?_, fun node hnode => htidy.held node (hmem node hnode)⟩
  · rw [List.nodup_iff_count]
    intro node
    have honce := List.nodup_iff_count.mp htidy.nodup node
    rw [count_nodes_plug] at honce
    omega
  · exact fun first hfirst second hsecond =>
      htidy.apart first (hmem first hfirst) second (hmem second hsecond)

theorem Fresh.mono {nodes others : List Value} (hfresh : Fresh store nodes branch)
    (hsubset : others ⊆ nodes) : Fresh store others branch where
  tidy := hfresh.tidy
  gap := hfresh.gap
  new := fun node hnode hother => hfresh.new node hnode (hsubset hother)
  apart := fun node hnode other hother => hfresh.apart node hnode other (hsubset hother)

theorem Level.nodes_graft_perm :
    (plug (.node owner (children ++ [branch])) outer).nodes.Perm
      (branch.nodes ++ (plug (.node owner children) outer).nodes) := by
  rw [List.perm_iff_count]
  intro node
  rw [List.count_append, count_nodes_plug, count_nodes_plug, Tree.nodes, Tree.nodes,
    Tree.nodesOfAll_append, Tree.nodesOfAll_singleton]
  simp only [List.count_cons, List.count_append]
  omega

/-- The node that gets a fresh tree stands with its new list of children. -/
theorem Tidy.standsIn_graft (htidy : Tidy store (.node owner children))
    (hkeeps : store.KeepsUnless (fun list _ => list = store.children owner) later)
    (hlist : store.cell? (store.children owner) = some (.list items))
    (hlater : later.cell? (store.children owner) = some (.list (items ++ [branch.value])))
    (hfresh : Fresh store (Tree.node owner children).nodes branch) :
    (Tree.node owner (children ++ [branch])).StandsIn (· = later) := by
  have howner : owner ∈ (Tree.node owner children).nodes := List.mem_cons_self
  have hitems : items = children.map Tree.value := by
    rcases htidy.stands.node_cases with ⟨hleaf, _⟩ | hsame
    · exact (Store.ne_null_of_list hlist hleaf).elim
    · rw [hlist] at hsame
      simpa using hsame
  obtain ⟨hchildren, hgaps⟩ := htidy.stands.children_stand
  refine .parent ?_ ?_ ?_
  · rintro _ rfl
    rw [hkeeps.children_eq (htidy.held owner howner), hlater, hitems]
    simp
  · rw [List.forall_mem_append, List.forall_mem_singleton]
    exact ⟨hgaps, hfresh.gap⟩
  · rw [List.forall_mem_append, List.forall_mem_singleton]
    constructor
    · intro child hchild
      have hbelow : ∀ node ∈ child.nodes, node ∈ Tree.nodesOfAll children := fun node hnode =>
        Tree.mem_nodesOfAll.mpr ⟨child, hchild, hnode⟩
      refine (hchildren child hchild).kept hkeeps ?_ ?_
      · exact fun node hnode => htidy.held node (List.mem_cons_of_mem _ (hbelow node hnode))
      · intro node hnode _ _ hsame
        have hnull : store.children node ≠ .null := hsame ▸ Store.ne_null_of_list hlist
        have heq := htidy.apart node (List.mem_cons_of_mem _ (hbelow node hnode)) owner howner hsame hnull
        exact (List.nodup_cons.mp htidy.nodup).1 (heq ▸ hbelow node hnode)
    · refine hfresh.tidy.stands.kept hkeeps hfresh.tidy.held ?_
      intro node hnode _ _ hsame
      exact Store.ne_null_of_list hlist (hsame ▸ hfresh.apart node hnode owner howner hsame)

/-- A fresh tree at the end of one list of children makes one more tree without
    sharing. -/
theorem Tidy.graft (htidy : Tidy store (plug (.node owner children) outer))
    (hlist : store.cell? (store.children owner) = some (.list items))
    (hfresh : Fresh store (plug (.node owner children) outer).nodes branch) :
    Tidy (store.updateItems (store.children owner) (· ++ [branch.value]))
      (plug (.node owner (children ++ [branch])) outer) := by
  obtain ⟨hchanged, hlater⟩ := Store.updateItems_keepsUnless hlist
    (Store.Extends.refl (store.updateItems (store.children owner) (· ++ [branch.value])))
  have hkeeps := hchanged.mono fun _ _ => And.left
  have howner : owner ∈ (Tree.node owner children).nodes := List.mem_cons_self
  have hheld : ∀ node ∈ branch.nodes ++ (plug (.node owner children) outer).nodes,
      store.Holds node := List.forall_mem_append.mpr ⟨hfresh.tidy.held, htidy.held⟩
  refine ⟨?_, ?_, ?_, ?_⟩
  · have haround : ∀ node ∈ nodesAround outer, node ∈ (plug (.node owner children) outer).nodes :=
      fun node hnode => mem_nodes_plug.mpr (Or.inr hnode)
    have hinner : (Tree.node owner children).nodes ⊆ (plug (.node owner children) outer).nodes :=
      fun node hnode => mem_nodes_plug.mpr (Or.inl hnode)
    refine standsIn_plug htidy.stands hkeeps (fun node hnode => htidy.held node (haround node hnode))
      ?_ (htidy.focus.standsIn_graft hkeeps hlist hlater (hfresh.mono hinner))
    -- One list was changed, and no node around its owner has the same.
    intro node hnode hsame
    have hnull : store.children node ≠ .null := hsame ▸ Store.ne_null_of_list hlist
    have heq := htidy.apart node (haround node hnode) owner (hinner howner) hsame hnull
    exact notMem_nodesAround htidy.nodup howner (heq ▸ hnode)
  · rw [nodes_graft_perm.nodup_iff, List.nodup_append]
    refine ⟨hfresh.tidy.nodup, htidy.nodup, ?_⟩
    rintro node hnode other hother rfl
    exact hfresh.new node hnode hother
  · intro first hfirst second hsecond
    rw [nodes_graft_perm.mem_iff] at hfirst hsecond
    rw [hkeeps.children_eq (hheld first hfirst), hkeeps.children_eq (hheld second hsecond)]
    intro hsame hnull
    rcases List.mem_append.mp hfirst with hfirst | hfirst
    · rcases List.mem_append.mp hsecond with hsecond | hsecond
      · exact hfresh.tidy.apart first hfirst second hsecond hsame hnull
      · exact (hnull (hfresh.apart first hfirst second hsecond hsame)).elim
    · rcases List.mem_append.mp hsecond with hsecond | hsecond
      · exact (hnull (hsame.trans (hfresh.apart second hsecond first hfirst hsame.symm))).elim
      · exact htidy.apart first hfirst second hsecond hsame hnull
  · intro node hnode
    exact hkeeps.holds (hheld node (nodes_graft_perm.mem_iff.mp hnode))

theorem Level.grown_single (inner : List Level) (level : Level) (outer : List Level) (branch : Tree) :
    Grown (inner ++ level :: outer) 1
      (inner ++ ⟨level.value, level.before, level.after ++ [branch]⟩ :: outer) := by
  induction inner with
  | nil => exact @Grown.cons level.value level.before level.after [branch] _ _ _ (.refl outer)
  | cons first rest ih =>
    have hmore := @Grown.cons first.value first.before first.after [] _ _ _ ih
    rw [List.append_nil] at hmore
    exact hmore

/-- A tree put at the end of the children of a node or of one of its ancestors,
    seen from the node. -/
theorem Level.grown_of_mem {value : Value} {levels : List Level}
    (howner : owner ∈ value :: lineageOf levels) (children : List Tree) (branch : Tree) :
    ∃ siblings outer more grown others,
      plug (.node value children) levels = plug (.node owner siblings) outer ∧
      plug (.node value (children ++ more)) grown = plug (.node owner (siblings ++ [branch])) outer ∧
      Grown levels others grown ∧ more.length + others = 1 := by
  rcases List.mem_cons.mp howner with rfl | habove
  · exact ⟨children, levels, [branch], levels, 0, rfl, rfl, .refl levels, rfl⟩
  · obtain ⟨level, hlevel, rfl⟩ := List.mem_map.mp habove
    obtain ⟨inner, outer, rfl⟩ := List.append_of_mem hlevel
    refine ⟨level.before ++ plug (.node value children) inner :: level.after, outer, [], _, 1, ?_, ?_,
      grown_single inner level outer branch, rfl⟩
    · rw [plug_append, plug]
    · rw [plug_append, plug, List.append_nil, List.append_assoc, List.cons_append]

/-- Fresh trees that are added along the way down to a node are at the end of its
    children or of those of its ancestors. -/
theorem Store.Adds.grown {value : Value} {levels : List Level} {nodes : List Value} {count : Nat}
    (hadds : store.Adds (value :: lineageOf levels) nodes count later)
    (htidy : Tidy store (plug (.node value children) levels))
    (hnodes : (plug (.node value children) levels).nodes ⊆ nodes) :
    ∃ more grown others, Grown levels others grown ∧ more.length + others = count ∧
      Tidy later (plug (.node value (children ++ more)) grown) := by
  generalize howners : value :: lineageOf levels = owners at hadds
  induction hadds generalizing children levels with
  | none hextends =>
    refine ⟨[], levels, 0, .refl levels, rfl, ?_⟩
    rw [List.append_nil]
    exact htidy.extend hextends
  | @more nodes store built later owner items branch count hbuilt howner hlist hfresh _ ih =>
    obtain ⟨siblings, outer, first, grown, others, hbefore, hafter, hgrown, hone⟩ :=
      grown_of_mem (howners ▸ howner) children branch
    -- For the trees that follow, the one just added is part of the tree.
    rw [hbefore] at htidy hnodes
    have hgraft := (htidy.extend hbuilt).graft hlist (hfresh.mono hnodes)
    have hsubset : (plug (.node owner (siblings ++ [branch])) outer).nodes ⊆ branch.nodes ++ nodes := by
      intro node hnode
      rw [nodes_graft_perm.mem_iff, List.mem_append] at hnode
      exact List.mem_append.mpr (hnode.imp_right (hnodes ·))
    rw [← hafter] at hgraft hsubset
    obtain ⟨more, grown', others', hgrown', hcount, hlater⟩ :=
      ih hgraft hsubset (hgrown.lineageOf_eq ▸ howners)
    rw [List.append_assoc] at hlater
    refine ⟨first ++ more, grown', others + others', hgrown.trans hgrown', ?_, hlater⟩
    rw [List.length_append]
    omega

end Graft

section Visitor

variable {σ : Type} {host : Host σ} {function : Nat} {manner : Manner} {root : Value}
  {within : Nat → List Value → Store × σ → Prop}

/-- A visitor that lets the walk go on and, called for the first time on a node
    below `root` whose ancestors it has been called on, adds fresh trees to the
    children of the node and of the ancestors. By `within` no more than so many
    are to be added once certain nodes have been visited. An answer that is not
    understood lets the walk go on if it can be written. -/
def Appends (host : Host σ) (function : Nat) (manner : Manner) (root : Value)
    (within : Nat → List Value → Store × σ → Prop) : Prop :=
  ∀ n visited value children levels state, within n visited state →
    value ∉ visited → lineageOf levels ⊆ visited →
    (plug (.node value children) levels).value = root →
    Tidy state.1 (plug (.node value children) levels) →
    ∃ answer later added rest,
      host function (manner.call (placeOf value levels) (lineageOf levels)) state =
        .ok answer later ∧
      later.1.Settles answer ∧ (Directive.read later.1 answer).getD {} = {} ∧
      state.1.Adds (value :: lineageOf levels) (plug (.node value children) levels).nodes added
        later.1 ∧
      rest + added ≤ n ∧ within rest (value :: visited) later

theorem Appends.grows (happends : Appends host function manner root within) :
    Grows host function manner fun n visited tree state =>
      tree.value = root ∧ Tidy state.1 tree ∧ within n visited state := by
  rintro n visited value children levels state ⟨_, _, hroot, htidy, hwithin⟩ hnew hancestors
  obtain ⟨answer, later, added, rest, hcall, hsettles, hread, hadds, hrest, hlater⟩ :=
    happends n visited value children levels state hwithin hnew hancestors hroot htidy
  obtain ⟨more, grown, others, hgrown, hcount, hafter⟩ := hadds.grown htidy (List.Subset.refl _)
  refine ⟨answer, later, more, grown, others, rest, hcall, hsettles, hread, hgrown, by omega,
    hafter.stands, hafter.nodup, ?_, hafter, hlater⟩
  rw [value_plug, hgrown.lineageOf_eq, ← hroot, value_plug]

/-- How many children a node had right after its visit. -/
def childCountAtVisit (trace : List (Spot × Store)) (value : Value) : Nat :=
  match trace.find? fun entry => entry.1.place.node = value with
  | some (_, store) => store.childCount value
  | none => 0

theorem measures_childCountAtVisit {trace : List (Spot × Store)}
    (hnodup : (trace.map fun entry => entry.1.place.node).Nodup) :
    Measures (childCountAtVisit trace) trace := by
  have hfind : ∀ entry ∈ trace,
      trace.find? (fun other => other.1.place.node = entry.1.place.node) = some entry := by
    induction trace with
    | nil => simp
    | cons first rest ih =>
      obtain ⟨hfirst, hrest⟩ := List.nodup_cons.mp hnodup
      rw [List.forall_mem_cons]
      refine ⟨by simp, fun entry hentry => ?_⟩
      have hne : first.1.place.node ≠ entry.1.place.node := fun heq =>
        hfirst (List.mem_map.mpr ⟨entry, hentry, heq.symm⟩)
      rw [List.find?_cons_of_neg (by simpa using hne)]
      exact ih hrest entry hentry
  intro entry hentry
  rw [childCountAtVisit, hfind entry hentry]

theorem Traced.told {world later : World σ} {message close : String} {trace : List (Spot × Store)}
    (htraced : Traced host function manner (world.told message) trace later) :
    Traced host function manner world trace (later.told close) where
  calls := htraced.calls
  visits := by
    have hvisits := htraced.visits
    simpa [visitsOf, World.told] using hvisits

theorem Appends.completes (happends : Appends host function manner root within) {n : Nat}
    {world : World σ} (hwithin : within n [] (world.store, world.user)) {children : List Tree}
    (htidy : Tidy world.store (.node root children)) (reverse annotate : Bool) :
    ∃ later children' trace,
      (Walker.everywhere host function manner reverse annotate).Completes [] { node := root } world
        .null later ∧
      Tidy later.store (.node root children') ∧ Traced host function manner world trace later ∧
      (trace.map fun entry => entry.1.place.node).Nodup ∧
      trace.map Prod.fst =
        if reverse then ((Tree.node root children').cut (childCountAtVisit trace)).spots true
        else (Tree.node root children').spots false := by
  have hgrows := happends.grows
  have hfits : Fitting (fun n visited tree state =>
      tree.value = root ∧ Tidy state.1 tree ∧ within n visited state) n []
      (plug (.node root children) []) (world.store, world.user) :=
    ⟨htidy.stands, htidy.nodup, rfl, htidy, hwithin⟩
  cases reverse with
  | false =>
    obtain ⟨later, children', grown, _, _, trace, hcompletes, hlater, hgrown, _, htraced, hspots⟩ :=
      Walker.Forward.completes hgrows (fun m _ _ => Walker.forward_all hgrows m _) .top hfits
    cases hgrown
    exact ⟨later, children', trace, hcompletes, hlater.fits.2.1, htraced,
      (nodes_perm_of_spots hspots).nodup_iff.mpr hlater.nodup, hspots⟩
  | true =>
    obtain ⟨later, children', grown, _, _, trace, hcompletes, hlater, hgrown, _, htraced, hcutting⟩ :=
      Walker.Backward.completes hgrows (fun m _ _ => Walker.backward_all hgrows m _) .top hfits
    cases hgrown
    have hnodup : (trace.map fun entry => entry.1.place.node).Nodup := by
      rw [List.nodup_iff_count]
      intro node
      exact Nat.le_trans (hcutting.nodes node) (List.nodup_iff_count.mp hlater.nodup node)
    exact ⟨later, children', trace, hcompletes, hlater.fits.2.1, htraced, hnodup,
      hcutting.spots _ (measures_childCountAtVisit hnodup)⟩

end Visitor

/-- A visitor that gives the parent of one node a new child without children. -/
def grafter (chosen : Value) : Host Unit
  | _, .inLineage node (parent :: _), (store, user) =>
    if node = chosen then
      let (leaf, store) := store.alloc (.mapping [])
      .ok .null (store.updateItems (store.children parent) (· ++ [leaf]), user)
    else .ok .null (store, user)
  | _, _, state => .ok .null state

theorem Tidy.fresh_leaf {store : Store} {tree : Tree} (htidy : Tidy store tree) :
    Fresh (store.alloc (.mapping [])).2 tree.nodes (.node (.cell ⟨store.size⟩) []) := by
  have hget := Store.get?_alloc_self store (.mapping [])
  have hleaf : (store.alloc (.mapping [])).2.children (.cell ⟨store.size⟩) = .null := by
    simp [Store.children, Store.property?, Store.cell?, hget, Cell.property?]
  refine ⟨⟨?_, ?_, ?_, ?_⟩, ?_, ?_, ?_⟩
  · refine .leaf ?_
    rintro _ rfl
    exact hleaf
  · simp [Tree.nodes, Tree.nodesOfAll]
  · simp [Tree.nodes, Tree.nodesOfAll]
  · simp [Tree.nodes, Tree.nodesOfAll, Store.Holds, hget]
  · simp [Tree.value]
  · rw [Tree.nodes, Tree.nodesOfAll, List.forall_mem_singleton]
    intro hmem
    obtain ⟨cell, hold⟩ := htidy.held _ hmem
    exact Nat.lt_irrefl _ (Store.address_lt_of_get? hold)
  · rw [Tree.nodes, Tree.nodesOfAll, List.forall_mem_singleton]
    exact fun _ _ _ => hleaf

theorem grafter_appends (chosen root : Value) :
    Appends (grafter chosen) 0 .lineage root
      fun n visited _ => chosen ∈ visited ∨ 0 < n := by
  rintro n visited value children levels ⟨store, user⟩ hwithin hnew _ _ htidy
  have hkept : chosen ∈ value :: visited ∨ 0 < n := hwithin.imp_left (List.mem_cons_of_mem value)
  cases levels with
  | nil =>
    exact ⟨.null, (store, user), 0, n, rfl, Store.settles_of_read rfl, rfl, .none (.refl store),
      by omega, hkept⟩
  | cons level outer =>
    by_cases hchosen : value = chosen
    · subst hchosen
      have hpositive : 0 < n := hwithin.resolve_left hnew
      have hbuilt := Store.extends_alloc store (.mapping [])
      have hparent : (Tree.node level.value _).StandsIn (· = (store.alloc (.mapping [])).2) :=
        standsIn_of_plug (htidy.extend hbuilt).stands
      have howner : level.value ∈ value :: lineageOf (level :: outer) := by simp [lineageOf]
      obtain ⟨_, hnone⟩ | hlist := hparent.node_cases
      · simp at hnone
      · have hadds := Store.Adds.more hbuilt howner hlist htidy.fresh_leaf (.none (.refl _))
        refine ⟨.null, (_, user), 1, n - 1, ?_, Store.settles_of_read rfl, rfl, hadds,
          by omega, Or.inl List.mem_cons_self⟩
        simp [grafter, Manner.call, lineageOf]
        rfl
    · refine ⟨.null, (store, user), 0, n, ?_, Store.settles_of_read rfl, rfl, .none (.refl store),
        by omega, hkept⟩
      simp [grafter, lineageOf, Manner.call, hchosen]

/-- A root with two children, of which the second has an empty list for its
    own. -/
def nursery : Store :=
  ⟨#[.mapping [("children", .cell ⟨1⟩)], .list [.cell ⟨2⟩, .cell ⟨3⟩], .mapping [],
    .mapping [("children", .cell ⟨4⟩)], .list []]⟩

theorem nursery_tidy :
    Tidy nursery (.node (.cell ⟨0⟩) [.node (.cell ⟨2⟩) [], .node (.cell ⟨3⟩) []]) where
  stands := by
    have hfirst : (Tree.node (.cell ⟨2⟩) []).StandsIn (· = nursery) := by
      refine .leaf ?_
      rintro _ rfl
      rfl
    have hsecond : (Tree.node (.cell ⟨3⟩) []).StandsIn (· = nursery) := by
      refine .parent ?_ (by simp) (by simp)
      rintro _ rfl
      rfl
    refine .parent ?_ (by simp [Tree.value]) (by simpa using ⟨hfirst, hsecond⟩)
    rintro _ rfl
    rfl
  nodup := by simp [Tree.nodes, Tree.nodesOfAll]
  apart := by decide
  held := by simp [Tree.nodes, Tree.nodesOfAll, Store.Holds, Store.get?, nursery]

example : (visit (grafter (.cell ⟨2⟩)) .lineage ⟨.null, .function 0, .bool true⟩ false 9 (.cell ⟨0⟩)
      ⟨nursery, [], ()⟩).map (fun
        | .ok _ final => (visitsOf final.journal).map (·.1.node)
        | .error _ _ => []) =
    some [.cell ⟨2⟩, .cell ⟨3⟩, .cell ⟨0⟩] := by
  decide +kernel

example : (visit (grafter (.cell ⟨2⟩)) .lineage ⟨.null, .function 0, .null⟩ false 9 (.cell ⟨0⟩)
      ⟨nursery, [], ()⟩).map (fun
        | .ok _ final => (visitsOf final.journal).map (·.1.node)
        | .error _ _ => []) =
    some [.cell ⟨5⟩, .cell ⟨3⟩, .cell ⟨2⟩, .cell ⟨0⟩] := by
  decide +kernel

theorem numberLeaf_tidy (n : Nat) : Tidy (Store.numberLeaf n) (.node (.cell ⟨0⟩) []) := by
  refine ⟨.leaf ?_, ?_, ?_, ?_⟩
  · rintro _ rfl
    rfl
  · simp [Tree.nodes, Tree.nodesOfAll]
  · simp [Tree.nodes, Tree.nodesOfAll]
  · simp [Tree.nodes, Tree.nodesOfAll, Store.Holds, Store.get?, Store.numberLeaf]

end Lineage
