import Lineage.Proofs.Tree.Zipper

namespace Lineage

open Level

variable {σ : Type}

/-- Calls of a function on one spot after the other, each with the store that
    the call left. -/
inductive Calls (host : Host σ) (function : Nat) (manner : Manner) :
    Store × σ → List (Spot × Store) → Store × σ → Prop where
  | nil (state : Store × σ) : Calls host function manner state [] state
  | cons {state middle last : Store × σ} {spot : Spot} {rest : List (Spot × Store)} {value : Value}
      (hcall : host function (manner.call spot.place spot.lineage) state = .ok value middle)
      (hrest : Calls host function manner middle rest last) :
      Calls host function manner state ((spot, middle.1) :: rest) last

/-- What a part of a walk did: it made some calls, and the journal tells of
    them. -/
structure Traced (host : Host σ) (function : Nat) (manner : Manner) (world : World σ)
    (trace : List (Spot × Store)) (later : World σ) : Prop where
  calls : Calls host function manner (world.store, world.user) trace (later.store, later.user)
  visits : visitsOf later.journal =
    (trace.map fun entry => (entry.1.place, entry.1.lineage)).reverse ++ visitsOf world.journal

section Trace

variable {host : Host σ} {function : Nat} {manner : Manner}

theorem Calls.append {state middle last : Store × σ} {first second : List (Spot × Store)}
    (hfirst : Calls host function manner state first middle)
    (hsecond : Calls host function manner middle second last) :
    Calls host function manner state (first ++ second) last := by
  induction hfirst with
  | nil => exact hsecond
  | cons hcall _ ih => exact .cons hcall (ih hsecond)

theorem Traced.trans {world middle later : World σ} {first second : List (Spot × Store)}
    (hfirst : Traced host function manner world first middle)
    (hsecond : Traced host function manner middle second later) :
    Traced host function manner world (first ++ second) later where
  calls := hfirst.calls.append hsecond.calls
  visits := by
    rw [hsecond.visits, hfirst.visits, List.map_append, List.reverse_append, List.append_assoc]

theorem Traced.refl (world : World σ) : Traced host function manner world [] world :=
  ⟨.nil _, rfl⟩

end Trace

/-- The nodes that have been visited, the last one first, when a trace is over. -/
def visitedBy (trace : List (Spot × Store)) (visited : List Value) : List Value :=
  trace.foldl (fun seen entry => entry.1.place.node :: seen) visited

theorem visitedBy_append (first second : List (Spot × Store)) (visited : List Value) :
    visitedBy (first ++ second) visited = visitedBy second (visitedBy first visited) :=
  List.foldl_append

theorem mem_visitedBy {trace : List (Spot × Store)} {visited : List Value} {node : Value} :
    node ∈ visitedBy trace visited ↔
      node ∈ (trace.map fun entry => entry.1.place.node) ∨ node ∈ visited := by
  induction trace generalizing visited with
  | nil => simp [visitedBy]
  | cons entry rest ih =>
    have hrest := @ih (entry.1.place.node :: visited)
    rw [visitedBy, List.foldl_cons, ← visitedBy, hrest]
    simp only [List.map_cons, List.mem_cons, or_assoc, or_left_comm]

/-- A walk has come down to a place in a tree: it has visited the ancestors, and
    nothing but nodes around the place. -/
structure Reached (visited : List Value) (levels : List Level) : Prop where
  ancestors : lineageOf levels ⊆ visited
  around : visited ⊆ nodesAround levels

section Reached

variable {visited : List Value} {levels outer : List Level} {value : Value}
  {before after : List Tree}

theorem Reached.top : Reached [] [] :=
  ⟨List.nil_subset _, List.nil_subset _⟩

theorem Reached.grown {grown : List Level} {count : Nat} (hreached : Reached visited levels)
    (hgrown : Grown levels count grown) : Reached visited grown where
  ancestors := hgrown.lineageOf_eq ▸ hreached.ancestors
  around := List.Subset.trans hreached.around hgrown.nodesAround_subset

theorem Reached.enter (hreached : Reached visited levels) (value : Value) :
    Reached (value :: visited) (⟨value, [], []⟩ :: levels) where
  ancestors := List.cons_subset_cons value hreached.ancestors
  around := List.cons_subset_cons value hreached.around

theorem Reached.widen (hreached : Reached visited (⟨value, before, after⟩ :: outer))
    {before' after' : List Tree} (hwider : before ++ after ⊆ before' ++ after') :
    Reached visited (⟨value, before', after'⟩ :: outer) := by
  refine ⟨hreached.ancestors, ?_⟩
  intro node hnode
  have haround := hreached.around hnode
  rw [nodesAround, ← Tree.nodesOfAll_append, List.cons_append, List.mem_cons, List.mem_append]
    at haround ⊢
  refine haround.imp_right (Or.imp_left fun hmem => ?_)
  obtain ⟨child, hchild, hnode⟩ := Tree.mem_nodesOfAll.mp hmem
  exact Tree.mem_nodesOfAll.mpr ⟨child, hwider hchild, hnode⟩

theorem Reached.visitedBy {trace : List (Spot × Store)} (hreached : Reached visited levels)
    (htrace : ∀ entry ∈ trace, entry.1.place.node ∈ nodesAround levels) :
    Reached (visitedBy trace visited) levels where
  ancestors := fun node hnode => mem_visitedBy.mpr (Or.inr (hreached.ancestors hnode))
  around := by
    intro node hnode
    rcases mem_visitedBy.mp hnode with hhere | hbefore
    · obtain ⟨entry, hentry, rfl⟩ := List.mem_map.mp hhere
      exact htrace entry hentry
    · exact hreached.around hbefore

end Reached

/-- A tree that stands in the store of a state, with no node twice in it, and of
    which `fits` says that no more than `n` trees are to be added to it after
    certain nodes have been visited. -/
structure Fitting (fits : Nat → List Value → Tree → Store × σ → Prop) (n : Nat)
    (visited : List Value) (tree : Tree) (state : Store × σ) : Prop where
  stands : tree.StandsIn (· = state.1)
  nodup : tree.nodes.Nodup
  fits : fits n visited tree state

/-- A visitor that lets the walk go on and, called on a node of a tree for the
    first time and not before the ancestors, adds trees at the end of the
    children of the node and of its ancestors. What it may still add is settled
    by `fits`. -/
def Grows (host : Host σ) (function : Nat) (manner : Manner)
    (fits : Nat → List Value → Tree → Store × σ → Prop) : Prop :=
  ∀ n visited value children levels state,
    Fitting fits n visited (plug (.node value children) levels) state →
    value ∉ visited → lineageOf levels ⊆ visited →
    ∃ answer later more grown count rest,
      host function (manner.call (placeOf value levels) (lineageOf levels)) state =
        .ok answer later ∧
      later.1.Settles answer ∧ (Directive.read later.1 answer).getD {} = {} ∧
      Grown levels count grown ∧
      rest + (more.length + count) ≤ n ∧
      Fitting fits rest (value :: visited) (plug (.node value (children ++ more)) grown) later

/-- How many children a node has. -/
def Store.childCount (store : Store) (value : Value) : Nat :=
  ((store.members? (store.children value)).getD []).length

mutual

/-- A tree with no more than so many children to each node. -/
def Tree.cut (length : Value → Nat) : Tree → Tree
  | .gap => .gap
  | .node value children => .node value ((Tree.cutAll length children).take (length value))

def Tree.cutAll (length : Value → Nat) : List Tree → List Tree
  | [] => []
  | child :: rest => child.cut length :: Tree.cutAll length rest

end

theorem Tree.cutAll_append (length : Value → Nat) (first second : List Tree) :
    Tree.cutAll length (first ++ second) =
      Tree.cutAll length first ++ Tree.cutAll length second := by
  induction first with
  | nil => rfl
  | cons child rest ih => rw [List.cons_append, Tree.cutAll, Tree.cutAll, ih, List.cons_append]

theorem Tree.length_cutAll (length : Value → Nat) (forest : List Tree) :
    (Tree.cutAll length forest).length = forest.length := by
  induction forest with
  | nil => rfl
  | cons child rest ih => rw [Tree.cutAll, List.length_cons, ih, List.length_cons]

theorem Store.childCount_list {store : Store} {value : Value} {items : List Value}
    (hlist : store.cell? (store.children value) = some (.list items)) :
    store.childCount value = items.length := by
  rw [childCount, members?_list hlist, Option.getD_some]

/-- A length for every node that agrees with the stores in which the nodes of a
    trace were left by their visits. -/
def Measures (length : Value → Nat) (trace : List (Spot × Store)) : Prop :=
  ∀ entry ∈ trace, length entry.1.place.node = entry.2.childCount entry.1.place.node

/-- A trace that comes by certain spots once lengths are given, and by each of
    some nodes no more often than it is there. -/
structure Cutting (trace : List (Spot × Store)) (nodes : List Value)
    (spots : (Value → Nat) → List Spot) : Prop where
  spots : ∀ length, Measures length trace → trace.map Prod.fst = spots length
  nodes : ∀ node, (trace.map fun entry => entry.1.place.node).count node ≤ nodes.count node

theorem Cutting.mem {trace : List (Spot × Store)} {nodes : List Value}
    {spots : (Value → Nat) → List Spot} (hcutting : Cutting trace nodes spots) :
    ∀ entry ∈ trace, entry.1.place.node ∈ nodes := by
  intro entry hentry
  have hcount := hcutting.nodes entry.1.place.node
  have hpos := List.count_pos_iff.mpr
    (List.mem_map_of_mem (f := fun entry => entry.1.place.node) hentry)
  exact List.count_pos_iff.mp (by omega)

/-- A node is cut to the children that it had when it was visited, and the rest
    of the trace comes by them. -/
theorem Cutting.enter {trace : List (Spot × Store)} {path : List Nat} {value : Value}
    {lineage : List Value} {children : List Tree} {store : Store}
    (hcutting : Cutting trace (Tree.nodesOfAll children) fun length =>
      Tree.spotsOfAll (fun _ => false) true path value (value :: lineage) 0
        (Tree.cutAll length children))
    (hcount : store.childCount value = children.length) (added : List Tree) (index parent : Value) :
    Cutting ((⟨path, ⟨value, index, parent⟩, lineage⟩, store) :: trace)
      (Tree.node value (children ++ added)).nodes fun length =>
        ((Tree.node value (children ++ added)).cut length).spotsUnless (fun _ => false) true path
          index parent lineage where
  spots := by
    intro length hmeasures
    rw [Measures, List.forall_mem_cons] at hmeasures
    have hkept : (Tree.cutAll length (children ++ added)).take (length value) =
        Tree.cutAll length children := by
      have hlength : length value = (Tree.cutAll length children).length := by
        rw [hmeasures.1, hcount, Tree.length_cutAll]
      rw [Tree.cutAll_append, hlength, List.take_left]
    rw [Tree.cut, hkept, Tree.spotsUnless]
    simpa using hcutting.spots length hmeasures.2
  nodes := by
    intro node
    have hbelow := hcutting.nodes node
    rw [Tree.nodes, Tree.nodesOfAll_append, List.map_cons, List.count_cons, List.count_cons,
      List.count_append]
    dsimp only
    omega

theorem Cutting.cons {trace trace' : List (Spot × Store)} {path : List Nat} {value : Value}
    {lineage : List Value} {child : Tree} {rest : List Tree} {first : Nat}
    (hrest : Cutting trace (Tree.nodesOfAll rest) fun length =>
      Tree.spotsOfAll (fun _ => false) true path value lineage (first + 1) (Tree.cutAll length rest))
    (hchild : Cutting trace' child.nodes fun length =>
      (child.cut length).spotsUnless (fun _ => false) true (first :: path) (.int first) value
        lineage) :
    Cutting (trace ++ trace') (Tree.nodesOfAll (child :: rest)) fun length =>
      Tree.spotsOfAll (fun _ => false) true path value lineage first
        (Tree.cutAll length (child :: rest)) where
  spots := by
    intro length hmeasures
    obtain ⟨hfirst, hsecond⟩ := List.forall_mem_append.mp hmeasures
    rw [List.map_append, hrest.spots length hfirst, hchild.spots length hsecond, Tree.cutAll,
      Tree.spotsOfAll]
    simp
  nodes := by
    intro node
    have hright := hrest.nodes node
    have hleft := hchild.nodes node
    rw [List.map_append, List.count_append, Tree.nodesOfAll, List.count_append]
    omega

/-- A trace that comes by the spots of a tree comes by its nodes. -/
theorem nodes_perm_of_spots {trace : List (Spot × Store)} {tree : Tree} {reverse : Bool}
    {path : List Nat} {index parent : Value} {lineage : List Value}
    (hspots : trace.map Prod.fst =
      tree.spotsUnless (fun _ => false) reverse path index parent lineage) :
    (trace.map fun entry => entry.1.place.node).Perm tree.nodes := by
  have hperm := tree.map_spotsUnless_perm reverse path index parent lineage
  rw [← hspots, List.map_map] at hperm
  exact hperm

/-- What holds of a forest when less may be added to it, or as much but nothing
    has been. -/
def Sooner (P : Nat → List Tree → Prop) (n : Nat) (forest : List Tree) : Prop :=
  ∀ m more, (m < n ∨ m = n ∧ more = []) → P m (forest ++ more)

theorem Sooner.mono {P : Nat → List Tree → Prop} {m n : Nat} {forest : List Tree}
    (hsooner : Sooner P n forest) (hle : m ≤ n) : Sooner P m forest := by
  rintro less more (hless | ⟨rfl, hmore⟩)
  · exact hsooner less more (Or.inl (by omega))
  · exact hsooner less more ((Nat.lt_or_eq_of_le hle).imp_right fun heq => ⟨heq, hmore⟩)

/-- Induction on what may be added to a forest and, while nothing is, on the
    forest. -/
theorem forest_induction {P : Nat → List Tree → Prop} (hnil : ∀ n, P n [])
    (hgap : ∀ n rest, P n rest → P n (.gap :: rest))
    (hnode : ∀ n value below rest, Sooner P n below → Sooner P n rest →
      P n (.node value below :: rest)) (n : Nat) : ∀ forest, P n forest := by
  -- What may be added comes first: a tree that is added can be larger than the
  -- forest it is added to.
  induction n using Nat.strongRecOn with
  | ind n hbudget =>
    intro forest
    induction hsize : sizeOf forest using Nat.strongRecOn generalizing forest with
    | ind size hsmaller =>
      subst hsize
      have hsooner : ∀ other, sizeOf other < sizeOf forest → Sooner P n other := by
        rintro other hless m more (hbelow | ⟨rfl, rfl⟩)
        · exact hbudget m hbelow (other ++ more)
        · rw [List.append_nil]
          exact hsmaller _ hless other rfl
      match forest with
      | [] => exact hnil n
      | .gap :: rest => exact hgap n rest (hsmaller _ (by simp) rest rfl)
      | .node value below :: rest =>
        have hbelow : sizeOf below < sizeOf (Tree.node value below :: rest) := by
          simp only [List.cons.sizeOf_spec, Tree.node.sizeOf_spec]
          omega
        have hrest : sizeOf rest < sizeOf (Tree.node value below :: rest) := by
          simp only [List.cons.sizeOf_spec]
          omega
        exact hnode n value below rest (hsooner below hbelow) (hsooner rest hrest)

namespace Walker

variable {host : Host σ} {function : Nat} {manner : Manner}
  {fits : Nat → List Value → Tree → Store × σ → Prop} {annotate : Bool} {visited : List Value}

theorem Grows.one (hgrows : Grows host function manner fits) (reverse : Bool) {n : Nat}
    {value : Value} {children : List Tree} {levels : List Level} {world : World σ}
    (hreached : Reached visited levels)
    (hfits : Fitting fits n visited (plug (.node value children) levels)
      (world.store, world.user)) :
    ∃ later more grown count rest,
      (everywhere host function manner reverse annotate).one (placeOf value levels)
        (lineageOf levels) world = .ok {} later ∧
      Grown levels count grown ∧ rest + (more.length + count) ≤ n ∧
      Fitting fits rest (value :: visited) (plug (.node value (children ++ more)) grown)
        (later.store, later.user) ∧
      Traced host function manner world [(spotOf value levels, later.store)] later := by
  have hnew : value ∉ visited := fun hmem =>
    notMem_nodesAround hfits.nodup (by simp [Tree.nodes]) (hreached.around hmem)
  obtain ⟨answer, ⟨store, user⟩, more, grown, count, rest, hcall, hsettles, hread, hgrown, hcount,
    hnext⟩ := hgrows n visited value children levels _ hfits hnew hreached.ancestors
  obtain ⟨journal, hone, hvisits⟩ := one_everywhere reverse annotate hcall hsettles
  rw [hread] at hone
  refine ⟨⟨store, journal, user⟩, more, grown, count, rest, hone, hgrown, hcount, hnext, ?_, ?_⟩
  · exact @Calls.cons _ _ _ _ _ _ _ (spotOf value levels) _ _ hcall (.nil _)
  · simpa [spotOf] using hvisits

/-- There is no child beyond the children of a node that stands. -/
theorem childAt_beyond {store : Store} {value : Value} {children : List Tree}
    (hstands : (Tree.node value children).StandsIn (· = store)) (reverse : Bool) :
    store.childAt (store.children value) (.int (exitOf reverse 0 children.length)) = .ok none := by
  rcases hstands.node_cases with ⟨hleaf, _⟩ | hlist
  · rw [hleaf]
    rfl
  · simpa using childAt_exitOf hlist reverse

theorem childAt_stands {store : Store} {value : Value} {before after : List Tree} {child : Tree}
    (hstands : (Tree.node value (before ++ child :: after)).StandsIn (· = store)) :
    store.childAt (store.children value) (.int before.length) = .ok (some child.value) := by
  rcases hstands.node_cases with ⟨_, hnone⟩ | hlist
  · simp at hnone
  · rw [List.map_append, List.map_cons] at hlist
    simpa using Store.childAt_middle hlist

section Forward

variable (host function manner fits annotate)

/-- Going forward over the last children of a node: they are walked over with
    all that is added to them, in the order in which they stand in the end. -/
def Forward (n : Nat) (forest : List Tree) : Prop :=
  ∀ (value : Value) (done : List Tree) (outer : List Level) (visited : List Value)
    (world : World σ), Reached visited (⟨value, done, []⟩ :: outer) →
    Fitting fits n visited (plug (.node value (done ++ forest)) outer) (world.store, world.user) →
    ∃ later forest' grown count rest trace,
      (everywhere host function manner false annotate).Sweeps (value :: lineageOf outer) value
        done.length world (done.length + forest'.length) later ∧
      Fitting fits rest (visitedBy trace visited) (plug (.node value (done ++ forest')) grown)
        (later.store, later.user) ∧
      Grown outer count grown ∧ rest + count ≤ n ∧
      Traced host function manner world trace later ∧
      trace.map Prod.fst = Tree.spotsOfAll (fun _ => false) false (pathOf outer) value
        (value :: lineageOf outer) done.length forest'

variable {host function manner fits annotate}

/-- A node is visited, then its children with those that the visit added. -/
theorem Forward.completes (hgrows : Grows host function manner fits) {n : Nat} {value : Value}
    {children : List Tree}
    (hforest : Sooner (Forward host function manner fits annotate) n children)
    {levels : List Level} {world : World σ} (hreached : Reached visited levels)
    (hfits : Fitting fits n visited (plug (.node value children) levels)
      (world.store, world.user)) :
    ∃ later children' grown count rest trace,
      (everywhere host function manner false annotate).Completes (lineageOf levels)
        (placeOf value levels) world .null later ∧
      Fitting fits rest (visitedBy trace visited) (plug (.node value children') grown)
        (later.store, later.user) ∧
      Grown levels count grown ∧ rest + count ≤ n ∧
      Traced host function manner world trace later ∧
      trace.map Prod.fst = (Tree.node value children').spotsUnless (fun _ => false) false
        (pathOf levels) (placeOf value levels).index (placeOf value levels).parent
        (lineageOf levels) := by
  obtain ⟨entered, more, grown, count, m, hone, hgrown, hcount, hentered, htraced⟩ :=
    Grows.one hgrows false hreached hfits
  obtain ⟨index, parent, hplace⟩ : ∃ index parent, placeOf value levels = ⟨value, index, parent⟩ := by
    cases levels <;> exact ⟨_, _, rfl⟩
  rw [spotOf, hplace] at htraced
  rw [hplace] at hone ⊢
  rcases (standsIn_of_plug hentered.stands).node_cases with ⟨hleaf, hnone⟩ | hlist
  · refine ⟨entered, [], grown, count, m, _, ?_, hnone ▸ hentered, hgrown, by omega, htraced, ?_⟩
    · exact completes_of_stays hone (by simp) (Or.inl hleaf)
    · simp [Tree.spotsUnless, Tree.spotsOfAll]
  · have hless : m < n ∨ m = n ∧ more = [] := by
      rw [← List.length_eq_zero_iff]
      omega
    obtain ⟨later, children', grown', count', rest, trace, hsweeps, hlater, hgrown', hcount',
      htraced', hspots⟩ := hforest m more hless value [] grown _ entered
        ((hreached.grown hgrown).enter value) hentered
    have hstart := startOf_everywhere host function manner false annotate hlist
    have hend := childAt_beyond (standsIn_of_plug hlater.stands) false
    rw [hgrown.lineageOf_eq] at hsweeps hspots
    rw [hgrown.pathOf_eq] at hspots
    refine ⟨later, children', grown', count + count', rest, _, ?_, hlater, hgrown.trans hgrown',
      by omega, htraced.trans htraced', ?_⟩
    · exact hsweeps.completes hone (by simp) (by simp) (Store.ne_null_of_list hlist) hstart hend
    · simpa [Tree.spotsUnless] using hspots

theorem Sweeps.forward {walker : Walker σ} {lineage : List Value} {value : Value}
    {done rest : List Tree} {child : Tree} {world middle later : World σ}
    (hfirst : walker.Sweeps lineage value done.length world (done.length + 1) middle)
    (hrest : walker.Sweeps lineage value (done ++ [child]).length middle
      ((done ++ [child]).length + rest.length) later) :
    walker.Sweeps lineage value done.length world (done.length + (child :: rest).length) later := by
  have hfrom : ((done ++ [child]).length : Int) = done.length + 1 := by simp
  have hto : (done.length : Int) + (child :: rest).length = done.length + 1 + rest.length := by
    simp only [List.length_cons]
    omega
  rw [hfrom] at hrest
  rw [hto]
  exact hfirst.trans hrest

theorem forward_nil (n : Nat) : Forward host function manner fits annotate n [] := by
  intro value done outer visited world hreached hfits
  refine ⟨world, [], outer, 0, n, [], ?_, hfits, .refl outer, by omega, .refl world, rfl⟩
  simpa using Sweeps.refl _ _ _ _ _

theorem Forward.gap {n : Nat} {rest : List Tree}
    (hrest : Forward host function manner fits annotate n rest) :
    Forward host function manner fits annotate n (.gap :: rest) := by
  intro value done outer visited world hreached hfits
  have hchild := childAt_stands (standsIn_of_plug hfits.stands)
  have hgap := @sweeps_gap _ (everywhere host function manner false annotate)
    (value :: lineageOf outer) _ _ _ hchild
  rw [List.append_cons] at hfits
  obtain ⟨later, rest', grown, count, m, trace, hsweeps, hlater, hgrown, hcount, htraced, hspots⟩ :=
    hrest value (done ++ [.gap]) outer visited world (hreached.widen (by simp)) hfits
  refine ⟨later, .gap :: rest', grown, count, m, trace, ?_, ?_, hgrown, hcount, htraced, ?_⟩
  · exact hgap.forward hsweeps
  · rw [List.append_cons]
    exact hlater
  · simpa [Tree.spotsOfAll, Tree.spotsUnless] using hspots

/-- From one child to the next: what the first adds to its siblings is walked
    over in its turn. -/
theorem Forward.cons (hgrows : Grows host function manner fits) {n : Nat} {node : Value}
    {below rest : List Tree}
    (hbelow : Sooner (Forward host function manner fits annotate) n below)
    (hrest : Sooner (Forward host function manner fits annotate) n rest) :
    Forward host function manner fits annotate n (.node node below :: rest) := by
  intro value done outer visited world hreached hfits
  have hparent := standsIn_of_plug hfits.stands
  have hchild := childAt_stands hparent
  have hnode : node ≠ .null := fun hnull => by
    cases hparent.children_stand.2 (.node node below) (by simp) hnull
  obtain ⟨middle, below', grown, count, m, trace, hcompletes, hmiddle, hgrown, hcount, htraced,
    hspots⟩ := @Forward.completes _ _ _ _ _ annotate _ hgrows _ _ _ hbelow
    (⟨value, done, rest⟩ :: outer) world (hreached.widen (by simp)) hfits
  obtain ⟨more, others, outer', rfl, rfl, houter⟩ := hgrown.uncons
  have hstep := hcompletes.sweeps hnode hchild
    (cursorAfter_everywhere host function manner false annotate done.length)
  -- Siblings that were added meanwhile are still ahead, and less may be added now.
  have hless : m < n ∨ m = n ∧ more = [] := by
    rw [← List.length_eq_zero_iff]
    omega
  have hnext : Reached (visitedBy trace visited) (⟨value, done ++ [.node node below'], []⟩ :: outer') := by
    have hwider : Reached visited (⟨value, done ++ [.node node below'], []⟩ :: outer') :=
      (hreached.grown (@Grown.cons value done [] [] _ _ _ houter)).widen (by simp)
    refine hwider.visitedBy fun entry hentry => ?_
    have hmem := (nodes_perm_of_spots hspots).mem_iff.mp (List.mem_map_of_mem hentry)
    simp [nodesAround, Tree.nodesOfAll_append, Tree.nodesOfAll_singleton, hmem]
  rw [plug, List.append_cons] at hmiddle
  obtain ⟨later, rest', grown, count, last, trace', hsweeps, hlater, hgrown', hcount', htraced',
    hspots'⟩ := hrest m more hless value (done ++ [.node node below']) outer' _ middle hnext hmiddle
  rw [houter.lineageOf_eq] at hsweeps hspots'
  rw [houter.pathOf_eq] at hspots'
  refine ⟨later, .node node below' :: rest', grown, others + count, last, trace ++ trace', ?_, ?_,
    houter.trans hgrown', by omega, htraced.trans htraced', ?_⟩
  · exact hstep.forward hsweeps
  · rw [List.append_cons, visitedBy_append]
    exact hlater
  · rw [List.map_append, hspots, hspots', Tree.spotsOfAll]
    simp [placeOf, pathOf, lineageOf]

theorem forward_all (hgrows : Grows host function manner fits) (n : Nat) (forest : List Tree) :
    Forward host function manner fits annotate n forest :=
  forest_induction forward_nil (fun _ _ => Forward.gap) (fun _ _ _ _ => Forward.cons hgrows) n forest

end Forward

section Backward

variable (host function manner fits annotate)

/-- Going backward over some children of a node: what is added to them stands
    after them, and each of them is walked over with as many children as it had
    right after its visit. -/
def Backward (n : Nat) (forest : List Tree) : Prop :=
  ∀ (value : Value) (before after : List Tree) (outer : List Level) (visited : List Value)
    (world : World σ), Reached visited (⟨value, before, after⟩ :: outer) →
    Fitting fits n visited (plug (.node value (before ++ (forest ++ after))) outer)
      (world.store, world.user) →
    ∃ later forest' more grown count rest trace,
      (everywhere host function manner true annotate).Sweeps (value :: lineageOf outer) value
        (entryOf true before.length forest.length) world (exitOf true before.length 0) later ∧
      Fitting fits rest (visitedBy trace visited)
        (plug (.node value (before ++ (forest' ++ (after ++ more)))) grown)
        (later.store, later.user) ∧
      forest'.length = forest.length ∧ Grown outer count grown ∧
      rest + (more.length + count) ≤ n ∧ Traced host function manner world trace later ∧
      Cutting trace (Tree.nodesOfAll forest') (fun length =>
        Tree.spotsOfAll (fun _ => false) true (pathOf outer) value (value :: lineageOf outer)
          before.length (Tree.cutAll length forest'))

variable {host function manner fits annotate}

/-- A node is visited, then its children as they are by then; those that are
    added to them meanwhile are not visited. -/
theorem Backward.completes (hgrows : Grows host function manner fits) {n : Nat} {value : Value}
    {children : List Tree}
    (hforest : Sooner (Backward host function manner fits annotate) n children)
    {levels : List Level} {world : World σ} (hreached : Reached visited levels)
    (hfits : Fitting fits n visited (plug (.node value children) levels)
      (world.store, world.user)) :
    ∃ later children' grown count rest trace,
      (everywhere host function manner true annotate).Completes (lineageOf levels)
        (placeOf value levels) world .null later ∧
      Fitting fits rest (visitedBy trace visited) (plug (.node value children') grown)
        (later.store, later.user) ∧
      Grown levels count grown ∧ rest + count ≤ n ∧
      Traced host function manner world trace later ∧
      Cutting trace (Tree.node value children').nodes (fun length =>
        ((Tree.node value children').cut length).spotsUnless (fun _ => false) true (pathOf levels)
          (placeOf value levels).index (placeOf value levels).parent (lineageOf levels)) := by
  obtain ⟨entered, more, grown, count, m, hone, hgrown, hcount, hentered, htraced⟩ :=
    Grows.one hgrows true hreached hfits
  obtain ⟨index, parent, hplace⟩ : ∃ index parent, placeOf value levels = ⟨value, index, parent⟩ := by
    cases levels <;> exact ⟨_, _, rfl⟩
  rw [spotOf, hplace] at htraced
  rw [hplace] at hone ⊢
  rcases (standsIn_of_plug hentered.stands).node_cases with ⟨hleaf, hnone⟩ | hlist
  · refine ⟨entered, [], grown, count, m, _, ?_, hnone ▸ hentered, hgrown, by omega, htraced, ?_, ?_⟩
    · exact completes_of_stays hone (by simp) (Or.inl hleaf)
    · intro length _
      simp [Tree.cut, Tree.cutAll, Tree.spotsUnless, Tree.spotsOfAll]
    · intro node
      simp [Tree.nodes, Tree.nodesOfAll]
  · have hless : m < n ∨ m = n ∧ more = [] := by
      rw [← List.length_eq_zero_iff]
      omega
    -- The cursor starts at the last child as of now, so whatever comes later
    -- stands behind it.
    have hwhole : children ++ more = [] ++ ((children ++ more) ++ []) := by simp
    obtain ⟨later, children', added, grown', count', rest, trace, hsweeps, hlater, hlength, hgrown',
      hcount', htraced', hcutting⟩ := hforest m more hless value [] [] grown _ entered
        ((hreached.grown hgrown).enter value) (hwhole ▸ hentered)
    rw [List.nil_append, List.nil_append] at hlater
    have hstart := startOf_everywhere host function manner true annotate hlist
    rw [List.length_map] at hstart
    have hend := childAt_beyond (standsIn_of_plug hlater.stands) true
    rw [hgrown.lineageOf_eq] at hsweeps hcutting
    rw [hgrown.pathOf_eq] at hcutting
    refine ⟨later, children' ++ added, grown', count + count', rest, _, ?_, hlater,
      hgrown.trans hgrown', by omega, htraced.trans htraced', hcutting.enter ?_ added index parent⟩
    · exact hsweeps.completes hone (by simp) (by simp) (Store.ne_null_of_list hlist) hstart hend
    · rw [Store.childCount_list hlist, List.length_map, hlength]

theorem backward_nil (n : Nat) : Backward host function manner fits annotate n [] := by
  intro value before after outer visited world hreached hfits
  refine ⟨world, [], [], outer, 0, n, [], ?_, ?_, rfl, .refl outer, by simp, .refl world, ?_, ?_⟩
  · simpa [entryOf, exitOf] using Sweeps.refl _ _ _ _ _
  · rw [List.append_nil]
    exact hfits
  · intro length _
    rfl
  · simp [Tree.nodesOfAll]

/-- The part of the children on the right is walked over before the one on the
    left. -/
theorem Sweeps.backward {walker : Walker σ} {lineage : List Value} {value : Value}
    {before rest : List Tree} {child : Tree} {world middle later : World σ}
    (hrest : walker.Sweeps lineage value (entryOf true (before ++ [child]).length rest.length) world
      (exitOf true (before ++ [child]).length 0) middle)
    (hfirst : walker.Sweeps lineage value before.length middle (exitOf true before.length 0) later) :
    walker.Sweeps lineage value (entryOf true before.length (child :: rest).length) world
      (exitOf true before.length 0) later := by
  have hentry : entryOf true before.length (child :: rest).length =
      entryOf true (before ++ [child]).length rest.length := by
    simp [entryOf]
    omega
  have hturn : exitOf true (before ++ [child]).length 0 = before.length := by simp [exitOf]
  rw [hentry]
  rw [hturn] at hrest
  exact hrest.trans hfirst

theorem Backward.gap {n : Nat} {rest : List Tree}
    (hrest : Backward host function manner fits annotate n rest) :
    Backward host function manner fits annotate n (.gap :: rest) := by
  intro value before after outer visited world hreached hfits
  rw [List.cons_append, List.append_cons] at hfits
  obtain ⟨later, rest', more, grown, count, m, trace, hsweeps, hlater, hlength, hgrown, hcount,
    htraced, hcutting⟩ := hrest value (before ++ [.gap]) after outer visited world
      (hreached.widen (by simp)) hfits
  rw [← List.append_cons] at hlater
  have hchild := childAt_stands (standsIn_of_plug hlater.stands)
  have hgap := @sweeps_gap _ (everywhere host function manner true annotate)
    (value :: lineageOf outer) _ _ _ hchild
  refine ⟨later, .gap :: rest', more, grown, count, m, trace, hsweeps.backward hgap, hlater, ?_,
    hgrown, hcount, htraced, ?_, ?_⟩
  · rw [List.length_cons, List.length_cons, hlength]
  · intro length hmeasures
    simpa [Tree.cutAll, Tree.cut, Tree.spotsOfAll, Tree.spotsUnless] using
      hcutting.spots length hmeasures
  · simpa [Tree.nodesOfAll, Tree.nodes] using hcutting.nodes

theorem Backward.cons (hgrows : Grows host function manner fits) {n : Nat} {node : Value}
    {below rest : List Tree}
    (hbelow : Sooner (Backward host function manner fits annotate) n below)
    (hrest : Backward host function manner fits annotate n rest) :
    Backward host function manner fits annotate n (.node node below :: rest) := by
  intro value before after outer visited world hreached hfits
  rw [List.cons_append, List.append_cons] at hfits
  obtain ⟨middle, rest', more, grown, count, m, trace, hsweeps, hmiddle, hlength, hgrown, hcount,
    htraced, hcutting⟩ := hrest value (before ++ [.node node below]) after outer visited world
      (hreached.widen (by simp)) hfits
  rw [← List.append_cons] at hmiddle
  have hparent := standsIn_of_plug hmiddle.stands
  have hchild := childAt_stands hparent
  have hnode : node ≠ .null := fun hnull => by
    cases hparent.children_stand.2 (.node node below) (by simp) hnull
  have hnext : Reached (visitedBy trace visited)
      (⟨value, before, rest' ++ (after ++ more)⟩ :: grown) := by
    have hwider : Reached visited (⟨value, before, rest' ++ (after ++ more)⟩ :: grown) :=
      (hreached.grown (@Grown.cons value before after [] _ _ _ hgrown)).widen (by grind)
    refine hwider.visitedBy fun entry hentry => ?_
    have hmem := hcutting.mem entry hentry
    simp [nodesAround, Tree.nodesOfAll_append, hmem]
  obtain ⟨later, below', grown', count', last, trace', hcompletes, hlater, hgrown', hcount', htraced',
    hcutting'⟩ := @Backward.completes _ _ _ _ _ annotate _ hgrows _ _ _ (hbelow.mono (by omega))
    (⟨value, before, rest' ++ (after ++ more)⟩ :: grown) middle hnext hmiddle
  obtain ⟨added, others, outer', rfl, rfl, houter⟩ := hgrown'.uncons
  have hstep := hcompletes.sweeps hnode hchild
    (cursorAfter_everywhere host function manner true annotate before.length)
  rw [lineageOf, List.map_cons, ← lineageOf, hgrown.lineageOf_eq] at hstep hcutting'
  rw [pathOf, List.map_cons, ← pathOf, hgrown.pathOf_eq] at hcutting'
  rw [List.length_append, List.length_singleton] at hcutting
  refine ⟨later, .node node below' :: rest', more ++ added, outer', count + others, last,
    trace ++ trace', hsweeps.backward hstep, ?_, ?_, hgrown.trans houter, ?_,
    htraced.trans htraced', hcutting.cons hcutting'⟩
  · simpa [plug, visitedBy_append] using hlater
  · rw [List.length_cons, List.length_cons, hlength]
  · rw [List.length_append]
    omega

theorem backward_all (hgrows : Grows host function manner fits) (n : Nat) (forest : List Tree) :
    Backward host function manner fits annotate n forest := by
  refine forest_induction backward_nil (fun _ _ => Backward.gap) ?_ n forest
  intro n value below rest hbelow hrest
  have hsame := hrest n [] (Or.inr ⟨rfl, rfl⟩)
  rw [List.append_nil] at hsame
  exact Backward.cons hgrows hbelow hsame

end Backward

end Walker

end Lineage
