import Lineage.Proofs.Tree.Editing
import Lineage.Proofs.Walk.Completion

namespace Lineage

/-- Every cell is as it was, except that lists with some of the given members
    may have others now. -/
def Store.Spares (touched : List Value) (store later : Store) : Prop :=
  store.KeepsUnless (fun _ items => ∃ item ∈ items, item ∈ touched) later

section Spared

variable {store middle later : Store} {touched more : List Value}

theorem Store.Spares.widen (hspares : store.Spares touched later) (hmore : touched ⊆ more) :
    store.Spares more later := by
  refine hspares.mono ?_
  rintro _ _ ⟨item, hitem, htouched⟩
  exact ⟨item, hitem, hmore htouched⟩

theorem Store.Spares.append (hfirst : store.Spares touched middle)
    (hsecond : middle.Spares more later) : store.Spares (touched ++ more) later := by
  refine (hfirst.trans hsecond).mono ?_
  rintro _ _ (⟨item, hitem, htouched⟩ | ⟨item, hitem, htouched⟩)
  · exact ⟨item, hitem, List.mem_append_left more htouched⟩
  · exact ⟨item, hitem, List.mem_append_right touched htouched⟩

/-- The members of the lists of a standing tree are its nodes, or null. -/
theorem Tree.StandsIn.members_cases {tree : Tree} (hstands : tree.StandsIn (· = store)) :
    ∀ node ∈ tree.nodes, ∀ items, store.cell? (store.children node) = some (.list items) →
      ∀ item ∈ items, item = .null ∨ item ∈ tree.nodes := by
  induction hstands with
  | gap => simp [Tree.nodes]
  | @leaf value hleaf =>
    intro node hnode items hlist
    rw [Tree.nodes, Tree.nodesOfAll, List.mem_singleton] at hnode
    subst hnode
    exact (Store.ne_null_of_list hlist (hleaf store rfl)).elim
  | @parent value children hchildren _ _ ih =>
    intro node hnode items hlist item hitem
    rw [Tree.nodes] at hnode ⊢
    rcases List.mem_cons.mp hnode with rfl | hbelow
    · rw [hchildren store rfl] at hlist
      cases hlist
      obtain ⟨child, hchild, rfl⟩ := List.mem_map.mp hitem
      cases child with
      | gap => exact Or.inl rfl
      | node item below =>
        exact Or.inr (List.mem_cons_of_mem _ (Tree.value_mem_nodesOfAll hchild (by simp)))
    · obtain ⟨child, hchild, hmem⟩ := Tree.mem_nodesOfAll.mp hbelow
      refine (ih child hchild node hmem items hlist item hitem).imp_right fun hsame => ?_
      exact List.mem_cons_of_mem _ (Tree.mem_nodesOfAll.mpr ⟨child, hchild, hsame⟩)

/-- A tree of which no node was touched stands as before. -/
theorem Tree.StandsIn.spared {tree : Tree} (hstands : tree.StandsIn (· = store))
    (hspares : store.Spares touched later) (hnull : .null ∉ touched)
    (hheld : ∀ node ∈ tree.nodes, store.Holds node) (hapart : ∀ node ∈ tree.nodes, node ∉ touched) :
    tree.StandsIn (· = later) := by
  refine hstands.kept hspares hheld ?_
  rintro node hnode items hlist ⟨item, hitem, htouched⟩
  rcases hstands.members_cases node hnode items hlist item hitem with rfl | hmem
  · exact hnull htouched
  · exact hapart item hmem htouched

theorem Planted.spared {forest : List Tree} (hplanted : Planted store forest)
    (hspares : store.Spares touched later) (hnull : .null ∉ touched)
    (hapart : ∀ node ∈ Tree.nodesOfAll forest, node ∉ touched) : Planted later forest := by
  refine ⟨?_, hplanted.gaps, fun node hnode => hspares.holds (hplanted.held node hnode),
    hplanted.nodup⟩
  intro tree htree
  have hmem : ∀ node ∈ tree.nodes, node ∈ Tree.nodesOfAll forest :=
    fun node hnode => Tree.mem_nodesOfAll.mpr ⟨tree, htree, hnode⟩
  exact (hplanted.stands tree htree).spared hspares hnull
    (fun node hnode => hplanted.held node (hmem node hnode))
    (fun node hnode => hapart node (hmem node hnode))

end Spared

mutual

/-- What is left of a tree: nothing if its root is doomed. -/
def Tree.without (doomed : Value → Bool) : Tree → List Tree
  | .gap => [.gap]
  | .node value children =>
    if doomed value then [] else [.node value (Tree.withoutAll doomed children)]

def Tree.withoutAll (doomed : Value → Bool) : List Tree → List Tree
  | [] => []
  | child :: rest => child.without doomed ++ Tree.withoutAll doomed rest

end

section Without

variable {doomed : Value → Bool}

theorem Tree.withoutAll_singleton (tree : Tree) :
    Tree.withoutAll doomed [tree] = tree.without doomed := by
  rw [Tree.withoutAll, Tree.withoutAll, List.append_nil]

mutual

theorem Tree.nodes_without_sublist : ∀ tree : Tree,
    (Tree.nodesOfAll (tree.without doomed)).Sublist tree.nodes
  | .gap => by
    simp [Tree.without, Tree.nodesOfAll, Tree.nodes]
  | .node value children => by
    rw [Tree.without]
    split
    · exact List.nil_sublist _
    · rw [Tree.nodesOfAll_singleton, Tree.nodes, Tree.nodes]
      exact (Tree.nodes_withoutAll_sublist children).cons_cons value

theorem Tree.nodes_withoutAll_sublist : ∀ forest : List Tree,
    (Tree.nodesOfAll (Tree.withoutAll doomed forest)).Sublist (Tree.nodesOfAll forest)
  | [] => List.Sublist.refl _
  | child :: rest => by
    rw [Tree.withoutAll, Tree.nodesOfAll_append, Tree.nodesOfAll]
    exact (Tree.nodes_without_sublist child).append (Tree.nodes_withoutAll_sublist rest)

end

end Without

/-- The nodes visited by a journal with their ancestors, the newest first. -/
def nodesVisited (journal : List Entry) : List (Value × List Value) :=
  (visitsOf journal).map fun visit => (visit.1.node, visit.2)

/-- A spot as a visit of its node. -/
def Spot.visit (spot : Spot) : Value × List Value :=
  (spot.place.node, spot.lineage)

variable {σ : Type}

/-- What a part of a walk did: it touched some nodes at most, and visited some. -/
structure Tended (world : World σ) (touched : List Value) (visits : List (Value × List Value))
    (later : World σ) : Prop where
  spares : world.store.Spares touched later.store
  visits : nodesVisited later.journal = visits.reverse ++ nodesVisited world.journal

theorem Tended.trans {world middle later : World σ} {touched more : List Value}
    {first second : List (Value × List Value)} (hfirst : Tended world touched first middle)
    (hsecond : Tended middle more second later) :
    Tended world (touched ++ more) (first ++ second) later where
  spares := hfirst.spares.append hsecond.spares
  visits := by rw [hsecond.visits, hfirst.visits, List.reverse_append, List.append_assoc]

theorem Tended.mono {world later : World σ} {touched more : List Value}
    {visits : List (Value × List Value)} (htended : Tended world touched visits later)
    (hmore : touched ⊆ more) : Tended world more visits later :=
  ⟨htended.spares.widen hmore, htended.visits⟩

theorem Tended.refl (world : World σ) : Tended world [] [] world :=
  ⟨(Store.Extends.refl world.store).keepsUnless, rfl⟩

/-- A part of the children of a node, with what is before and after it in their
    list: no node of the part is there a second time. -/
structure Plot (store : Store) (parent : Value) (before : List Value) (forest : List Tree)
    (after : List Value) : Prop where
  held : store.Holds parent
  list : store.cell? (store.children parent) =
    some (.list (before ++ forest.map Tree.value ++ after))
  planted : Planted store forest
  apart : ∀ value ∈ before ++ after, value ∉ Tree.nodesOfAll forest

namespace Plot

variable {store later : Store} {parent : Value} {before after : List Value}
  {tree : Tree} {first second kept : List Tree}

theorem list_singleton (hplot : Plot store parent before [tree] after) :
    store.cell? (store.children parent) = some (.list (before ++ tree.value :: after)) := by
  simpa using hplot.list

/-- The entries of one forest are not nodes of another that has no node in
    common with it. -/
theorem value_notMem {forest other : List Tree} (hother : Planted store other)
    (hapart : ∀ node ∈ Tree.nodesOfAll forest, node ∉ Tree.nodesOfAll other) :
    ∀ value ∈ forest.map Tree.value, value ∉ Tree.nodesOfAll other := by
  intro value hvalue
  obtain ⟨tree, htree, rfl⟩ := List.mem_map.mp hvalue
  cases tree with
  | gap => exact hother.null_notMem
  | node value children => exact hapart value (Tree.value_mem_nodesOfAll htree (by simp))

theorem left (hplot : Plot store parent before (first ++ second) after) :
    Plot store parent before first (second.map Tree.value ++ after) := by
  obtain ⟨hfirst, _, hdisjoint⟩ := Planted.append_iff.mp hplot.planted
  have hothers := value_notMem hfirst fun node hnode hmem => hdisjoint node hmem hnode
  have hapart := hplot.apart
  rw [Tree.nodesOfAll_append] at hapart
  refine ⟨hplot.held, by simpa using hplot.list, hfirst, ?_⟩
  intro value hvalue hmem
  rcases List.mem_append.mp hvalue with hbefore | hafter
  · exact hapart value (List.mem_append_left _ hbefore) (List.mem_append_left _ hmem)
  · rcases List.mem_append.mp hafter with hother | hafter
    · exact hothers value hother hmem
    · exact hapart value (List.mem_append_right _ hafter) (List.mem_append_left _ hmem)

theorem right (hplot : Plot store parent before (first ++ second) after) :
    Plot store parent (before ++ first.map Tree.value) second after := by
  obtain ⟨_, hsecond, hdisjoint⟩ := Planted.append_iff.mp hplot.planted
  have hothers := value_notMem hsecond hdisjoint
  have hapart := hplot.apart
  rw [Tree.nodesOfAll_append] at hapart
  refine ⟨hplot.held, by simpa using hplot.list, hsecond, ?_⟩
  intro value hvalue hmem
  rcases List.mem_append.mp hvalue with hbefore | hafter
  · rcases List.mem_append.mp hbefore with hbefore | hother
    · exact hapart value (List.mem_append_left _ hbefore) (List.mem_append_right _ hmem)
    · exact hothers value hother hmem
  · exact hapart value (List.mem_append_right _ hafter) (List.mem_append_right _ hmem)

/-- What is done to the left part of a plot leaves its right part alone. -/
theorem tend_left (hplot : Plot store parent before (first ++ second) after)
    (hspares : store.Spares (Tree.nodesOfAll first) later)
    (hkept : Tree.nodesOfAll kept ⊆ Tree.nodesOfAll first)
    (hleft : Plot later parent before kept (second.map Tree.value ++ after)) :
    Plot later parent before (kept ++ second) after := by
  obtain ⟨hfirst, hsecond, hdisjoint⟩ := Planted.append_iff.mp hplot.planted
  have hsecond' := hsecond.spared hspares hfirst.null_notMem fun node hnode hmem =>
    hdisjoint node hmem hnode
  refine ⟨hleft.held, by simpa using hleft.list, Planted.append_iff.mpr
    ⟨hleft.planted, hsecond', fun node hnode => hdisjoint node (hkept hnode)⟩, ?_⟩
  intro value hvalue hmem
  refine hplot.apart value hvalue ?_
  rw [Tree.nodesOfAll_append, List.mem_append] at hmem ⊢
  exact hmem.imp_left (hkept ·)

theorem tend_right (hplot : Plot store parent before (first ++ second) after)
    (hspares : store.Spares (Tree.nodesOfAll second) later)
    (hkept : Tree.nodesOfAll kept ⊆ Tree.nodesOfAll second)
    (hright : Plot later parent (before ++ first.map Tree.value) kept after) :
    Plot later parent before (first ++ kept) after := by
  obtain ⟨hfirst, hsecond, hdisjoint⟩ := Planted.append_iff.mp hplot.planted
  have hfirst' := hfirst.spared hspares hsecond.null_notMem hdisjoint
  refine ⟨hright.held, by simpa using hright.list, Planted.append_iff.mpr
    ⟨hfirst', hright.planted, fun node hnode hmem => hdisjoint node hnode (hkept hmem)⟩, ?_⟩
  intro value hvalue hmem
  refine hplot.apart value hvalue ?_
  rw [Tree.nodesOfAll_append, List.mem_append] at hmem ⊢
  exact hmem.imp_right (hkept ·)

end Plot

/-- A visitor that takes every doomed node out of the list that it is in and
    leaves out what is below it; going forward, its place is taken up again.
    All else is left alone. -/
structure Deletes (host : Host σ) (function : Nat) (doomed : Value → Bool) (reverse : Bool) :
    Prop where
  erase : ∀ (node parent : Value) (index : Nat) (items : List Value) (store : Store) (user : σ),
    doomed node = true → store.cell? (store.children parent) = some (.list items) →
    items[index]? = some node →
    ∃ answer later user', host function (.atPlace ⟨node, .int index, parent⟩) (store, user) =
        .ok answer (later, user') ∧
      (store.updateItems (store.children parent) (·.eraseIdx index)).Extends later ∧
      Directive.read later answer = some ⟨.action .skip, if reverse then .null else .int index⟩
  spare : ∀ (place : Place) (store : Store) (user : σ), doomed place.node = false →
    ∃ answer later user', host function (.atPlace place) (store, user) =
        .ok answer (later, user') ∧
      store.Extends later ∧ Directive.read later answer = some {}

namespace Walker

variable (host : Host σ) (function : Nat) (doomed : Value → Bool) (reverse annotate : Bool)

/-- Walking over a part of the children of a node takes what is doomed out of
    it, visits what has nothing doomed above it, and touches nothing else. -/
def Prunes (forest : List Tree) : Prop :=
  ∀ (parent : Value) (before after : List Value) (path : List Nat) (first : Nat)
    (lineage : List Value) (world : World σ), Plot world.store parent before forest after →
    ∃ later,
      (everywhere host function .place reverse annotate).Sweeps lineage parent
        (entryOf reverse before.length forest.length) world
        (exitOf reverse before.length (Tree.withoutAll doomed forest).length) later ∧
      Tended world (Tree.nodesOfAll forest)
        ((Tree.spotsOfAll (fun spot => doomed spot.place.node) reverse path parent lineage first
          forest).map Spot.visit) later ∧
      Plot later.store parent before (Tree.withoutAll doomed forest) after

section Parts

variable {host function doomed reverse annotate}

theorem prunes_nil : Prunes host function doomed reverse annotate [] := by
  intro parent before after path first lineage world hplot
  refine ⟨world, ?_, Tended.refl world, hplot⟩
  cases reverse <;> simpa [entryOf, exitOf, Tree.withoutAll] using Sweeps.refl _ _ _ _ _

theorem prunes_gap : Prunes host function doomed reverse annotate [.gap] := by
  intro parent before after path first lineage world hplot
  have hgap := @sweeps_gap _ (everywhere host function .place reverse annotate) lineage _ _ _
    (Store.childAt_middle hplot.list_singleton)
  rw [Tree.withoutAll_singleton, Tree.without, Tree.spotsOfAll_singleton, Tree.spotsUnless]
  refine ⟨world, ?_, (Tended.refl world).mono (List.nil_subset _), hplot⟩
  cases reverse with
  | false => exact hgap
  | true =>
    have hentry : entryOf true before.length 1 = before.length := by simp [entryOf]
    rw [List.length_singleton, hentry]
    exact hgap

/-- Two parts next to each other are walked one after the other, from the left
    or from the right. -/
theorem Prunes.cons {child : Tree} {rest : List Tree}
    (hchild : Prunes host function doomed reverse annotate [child])
    (hrest : Prunes host function doomed reverse annotate rest) :
    Prunes host function doomed reverse annotate (child :: rest) := by
  intro parent before after path first lineage world hplot
  have hwhole : Plot world.store parent before ([child] ++ rest) after := hplot
  have hnodes : Tree.nodesOfAll (child :: rest) = Tree.nodesOfAll [child] ++ Tree.nodesOfAll rest :=
    @Tree.nodesOfAll_append [child] rest
  have hkeptLeft := (@Tree.nodes_withoutAll_sublist doomed [child]).subset
  have hkeptRight := (@Tree.nodes_withoutAll_sublist doomed rest).subset
  rw [Tree.withoutAll, ← Tree.withoutAll_singleton, hnodes, Tree.spotsOfAll,
    ← Tree.spotsOfAll_singleton]
  cases reverse with
  | false =>
    obtain ⟨middle, hsweep, htended, hleft⟩ := hchild _ _ _ path first lineage world hwhole.left
    have hmiddle := hwhole.tend_left htended.spares hkeptLeft hleft
    obtain ⟨later, hmore, htended', hright⟩ := hrest _ _ _ path (first + 1) lineage middle hmiddle.right
    refine ⟨later, ?_, ?_, hmiddle.tend_right htended'.spares hkeptRight hright⟩
    · refine hsweep.trans ?_
      simpa [entryOf, exitOf, Int.add_assoc] using hmore
    · simpa using htended.trans htended'
  | true =>
    obtain ⟨middle, hsweep, htended, hright⟩ := hrest _ _ _ path (first + 1) lineage world hwhole.right
    have hmiddle := hwhole.tend_right htended.spares hkeptRight hright
    obtain ⟨later, hmore, htended', hleft⟩ := hchild _ _ _ path first lineage middle hmiddle.left
    refine ⟨later, ?_, ?_, hmiddle.tend_left htended'.spares hkeptLeft hleft⟩
    · have hentry : entryOf true before.length (child :: rest).length =
          entryOf true (before ++ [child].map Tree.value).length rest.length := by
        simp [entryOf]
        omega
      have hturn : exitOf true (before ++ [child].map Tree.value).length
          (Tree.withoutAll doomed rest).length = entryOf true before.length [child].length := by
        simp [entryOf, exitOf]
      rw [hentry]
      rw [hturn] at hsweep
      exact hsweep.trans hmore
    · have hboth := htended.trans htended'
      rw [← List.map_append] at hboth
      exact hboth.mono (by simp)

/-- A doomed node is visited and taken out, and the walk goes on with the one
    that was next to it. -/
theorem prunes_doomed (hdeletes : Deletes host function doomed reverse) {value : Value}
    (hdoomed : doomed value = true) (children : List Tree) :
    Prunes host function doomed reverse annotate [.node value children] := by
  intro parent before after path first lineage world hplot
  have hlist : world.store.cell? _ = some (.list (before ++ value :: after)) := hplot.list_singleton
  have hnode : value ≠ .null := fun hnull => by
    cases hplot.planted.gaps _ (List.mem_singleton_self _) hnull
  have hchild := Store.childAt_middle hlist
  have hmem : value ∈ before ++ value :: after := by simp
  obtain ⟨answer, store, user, hcall, hextends, hread⟩ := hdeletes.erase value parent before.length
    _ world.store world.user hdoomed hlist (by simp)
  obtain ⟨hkeeps, hremoved⟩ := Store.updateItems_keepsUnless hlist hextends
  have hspares : world.store.Spares [value] store := by
    refine hkeeps.mono ?_
    rintro _ _ ⟨rfl, rfl⟩
    exact ⟨value, hmem, List.mem_singleton_self value⟩
  have herased : (before ++ value :: after).eraseIdx before.length = before ++ after := by
    simp [List.eraseIdx_append_of_length_le]
  rw [herased] at hremoved
  obtain ⟨journal, hone, hvisits⟩ := @one_everywhere _ _ _ .place reverse annotate
    ⟨value, .int before.length, parent⟩ lineage _ _ _ _ hcall (Store.settles_of_read hread)
  rw [hread] at hone
  have hcompletes := completes_of_stays hone (by simp) (Or.inr rfl)
  rw [Tree.withoutAll_singleton, Tree.without, if_pos hdoomed, Tree.spotsOfAll_singleton,
    Tree.spotsUnless, if_pos hdoomed, Tree.nodesOfAll_singleton]
  refine ⟨⟨store, journal, user⟩, ?_, ⟨hspares.widen ?_, ?_⟩, hspares.holds hplot.held, ?_, ?_, ?_⟩
  · have hnext : (everywhere host function .place reverse annotate).cursorAfter
        (.int before.length) (if reverse then .null else .int before.length) =
          .int (exitOf reverse before.length 0) := by
      cases reverse <;> rfl
    rw [List.length_singleton, entryOf_one]
    exact hcompletes.sweeps hnode hchild hnext
  · simp [Tree.nodes]
  · simp [nodesVisited, hvisits, Spot.visit]
  · rw [hspares.children_eq hplot.held]
    simpa using hremoved
  · exact ⟨by simp, by simp, by simp [Tree.nodesOfAll], by simp [Tree.nodesOfAll]⟩
  · simp [Tree.nodesOfAll]

/-- A node that is not doomed is visited, and its children are walked over. Its
    index may be another one than it was in the original tree. -/
theorem Prunes.completes {children : List Tree}
    (hprunes : Prunes host function doomed reverse annotate children)
    (hdeletes : Deletes host function doomed reverse) {value : Value}
    (hspared : doomed value = false) {world : World σ}
    (hstands : (Tree.node value children).StandsIn (· = world.store))
    (hheld : ∀ node ∈ (Tree.node value children).nodes, world.store.Holds node)
    (hnodup : (Tree.node value children).nodes.Nodup)
    (index parent original : Value) (lineage : List Value) (path : List Nat) :
    ∃ later,
      (everywhere host function .place reverse annotate).Completes lineage ⟨value, index, parent⟩
        world .null later ∧
      Tended world (Tree.nodesOfAll children)
        (((Tree.node value children).spotsUnless (fun spot => doomed spot.place.node) reverse path
          original parent lineage).map Spot.visit) later ∧
      (Tree.node value (Tree.withoutAll doomed children)).StandsIn (· = later.store) := by
  have hplanted := Planted.of_node hstands hheld hnodup
  obtain ⟨answer, store, user, hcall, hextends, hread⟩ :=
    hdeletes.spare ⟨value, index, parent⟩ world.store world.user hspared
  obtain ⟨journal, hone, hvisits⟩ := @one_everywhere _ _ _ .place reverse annotate
    ⟨value, index, parent⟩ lineage _ _ _ _ hcall (Store.settles_of_read hread)
  rw [hread] at hone
  have hvalue : world.store.Holds value := hheld value List.mem_cons_self
  have hentered : Tended world [] [(value, lineage)] ⟨store, journal, user⟩ :=
    ⟨hextends.keepsUnless, by simp [nodesVisited, hvisits]⟩
  have hsame := hentered.spares.children_eq hvalue
  have hplanted' := hplanted.spared hentered.spares (by simp) (by simp)
  rw [Tree.spotsUnless, if_neg (by simp [hspared])]
  rcases hstands.node_cases with ⟨hleaf, rfl⟩ | hlist
  · rw [hleaf] at hsame
    refine ⟨_, completes_of_stays hone (by simp) (Or.inl hsame), hentered, .leaf ?_⟩
    rintro _ rfl
    exact hsame
  · have hlist' := hentered.spares.list_eq hlist (by simp)
    rw [← hsame] at hlist'
    obtain ⟨later, hsweep, htended, hplot⟩ := hprunes value [] [] path 0 (value :: lineage)
      ⟨store, journal, user⟩
      ⟨hentered.spares.holds hvalue, by simpa using hlist', hplanted', by simp⟩
    have hlater := hplot.list
    rw [List.nil_append, List.append_nil] at hlater
    have hend := childAt_exitOf hlater reverse
    rw [List.length_map] at hend
    have hstart := startOf_everywhere host function .place reverse annotate hlist'
    rw [List.length_map] at hstart
    refine ⟨later, hsweep.completes hone (by simp) (by simp) (Store.ne_null_of_list hlist') hstart
      hend, hentered.trans htended, ?_⟩
    refine .parent ?_ hplot.planted.gaps hplot.planted.stands
    rintro _ rfl
    exact hlater

/-- The list of its parent is left alone while a node that is not doomed is
    dealt with, since none of its own members is below the node. -/
theorem Prunes.spared {children : List Tree}
    (hprunes : Prunes host function doomed reverse annotate children)
    (hdeletes : Deletes host function doomed reverse) {value : Value}
    (hspared : doomed value = false) :
    Prunes host function doomed reverse annotate [.node value children] := by
  intro parent before after path first lineage world hplot
  have hlist : world.store.cell? _ = some (.list (before ++ value :: after)) := hplot.list_singleton
  have hnode : value ≠ .null := fun hnull => by
    cases hplot.planted.gaps _ (List.mem_singleton_self _) hnull
  have hchild := Store.childAt_middle hlist
  have hheld := hplot.planted.held
  have hnodup := hplot.planted.nodup
  have hapart := hplot.apart
  rw [Tree.nodesOfAll_singleton] at hheld hnodup hapart
  obtain ⟨later, hcompletes, htended, hstands⟩ := hprunes.completes hdeletes hspared
    (hplot.planted.stands _ (List.mem_singleton_self _)) hheld hnodup (.int before.length) parent
    (.int first) lineage (first :: path)
  have hmembers : ¬∃ item ∈ before ++ value :: after, item ∈ Tree.nodesOfAll children := by
    rintro ⟨item, hitem, hmem⟩
    rcases List.mem_append.mp hitem with hitem | hitem
    · exact hapart item (List.mem_append_left after hitem) (List.mem_cons_of_mem value hmem)
    · rcases List.mem_cons.mp hitem with rfl | hitem
      · exact (List.nodup_cons.mp hnodup).1 hmem
      · exact hapart item (List.mem_append_right before hitem) (List.mem_cons_of_mem value hmem)
  have hkept : (Tree.node value (Tree.withoutAll doomed children)).nodes.Sublist
      (Tree.node value children).nodes :=
    (Tree.nodes_withoutAll_sublist children).cons_cons value
  rw [Tree.withoutAll_singleton, Tree.without, if_neg (by simp [hspared]),
    Tree.spotsOfAll_singleton, Tree.nodesOfAll_singleton]
  refine ⟨later, ?_, htended.mono (List.subset_cons_self _ _), htended.spares.holds hplot.held, ?_, ?_,
    ?_⟩
  · have hnext := cursorAfter_everywhere host function .place reverse annotate before.length
    rw [List.length_singleton, entryOf_one]
    exact hcompletes.sweeps hnode hchild hnext
  · rw [htended.spares.children_eq hplot.held]
    simpa [Tree.value] using htended.spares.list_eq hlist hmembers
  · refine ⟨by simpa using hstands, ?_, ?_, ?_⟩
    · simpa [Tree.value] using hnode
    · rw [Tree.nodesOfAll_singleton]
      exact fun node hmem => htended.spares.holds (hheld node (hkept.subset hmem))
    · rw [Tree.nodesOfAll_singleton]
      exact hkept.nodup hnodup
  · rw [Tree.nodesOfAll_singleton]
    exact fun item hitem hmem => hapart item hitem (hkept.subset hmem)

mutual

theorem prunes_tree (hdeletes : Deletes host function doomed reverse) : ∀ tree : Tree,
    Prunes host function doomed reverse annotate [tree]
  | .gap => prunes_gap
  | .node value children => by
    cases hdoomed : doomed value with
    | true => exact prunes_doomed hdeletes hdoomed children
    | false => exact (prunes_forest hdeletes children).spared hdeletes hdoomed

theorem prunes_forest (hdeletes : Deletes host function doomed reverse) : ∀ forest : List Tree,
    Prunes host function doomed reverse annotate forest
  | [] => prunes_nil
  | child :: rest => (prunes_tree hdeletes child).cons (prunes_forest hdeletes rest)

end

end Parts

end Walker

/-- The nodes of a tree in pre-order that have no doomed node above them. -/
def Tree.reached (doomed : Value → Bool) (reverse : Bool) (tree : Tree) : List Spot :=
  (tree.spots reverse).filter fun spot => !(tree.spots reverse).any fun above =>
    above.isAbove spot && doomed above.place.node

/-- Taking doomed nodes out while they are visited: if the root can be labelled,
    each node that has no doomed one above it is visited once, in pre-order of
    the original tree, and nothing else is; the doomed nodes and what is below
    them are gone in the end, and all else is as it was. -/
theorem deletion_prunes (host : Host σ) (function : Nat) (doomed : Value → Bool)
    (reverse : Value) (annotate : Bool) (world : World σ)
    (hdeletes : Deletes host function doomed (world.store.isTrue reverse))
    (root : Value) (children : List Tree) (hroot : doomed root = false)
    (hstands : (Tree.node root children).StandsIn (· = world.store))
    (hheld : ∀ node ∈ (Tree.node root children).nodes, world.store.Holds node)
    (hnodup : (Tree.node root children).nodes.Nodup) (hlabel : world.store.CanLabel root) :
    ∃ fuel final,
      (∀ more, visit host .place ⟨.null, .function function, reverse⟩ annotate (fuel + more) root
        world = some (.ok .finished final)) ∧
      nodesVisited final.journal =
        (((Tree.node root children).reached doomed (world.store.isTrue reverse)).map
          Spot.visit).reverse ++ nodesVisited world.journal ∧
      (((Tree.node root children).reached doomed (world.store.isTrue reverse)).map
        fun spot => spot.place.node).Nodup ∧
      (Tree.node root (Tree.withoutAll doomed children)).StandsIn (· = final.store) ∧
      world.store.Spares (Tree.nodesOfAll children) final.store := by
  let walker := Walker.everywhere host function .place (world.store.isTrue reverse) annotate
  obtain ⟨message, hannounce⟩ := walker.announce_tells hlabel
  have htold : ∀ (before : World σ) text, nodesVisited (before.told text).journal =
      nodesVisited before.journal := by
    intro before text
    simp [nodesVisited, visitsOf, World.told]
  obtain ⟨later, hcompletes, htended, hleft⟩ :=
    (Walker.prunes_forest hdeletes children).completes hdeletes hroot
      (show (Tree.node root children).StandsIn (· = (world.told message).store) from hstands)
      hheld hnodup .null .null .null [] []
  obtain ⟨fuel, close, hwalk⟩ := Walker.walk_of_completes hannounce hcompletes
  have hreached : (Tree.node root children).reached doomed (world.store.isTrue reverse) =
      (Tree.node root children).spotsUnless (fun spot => doomed spot.place.node)
        (world.store.isTrue reverse) [] .null .null [] :=
    (Tree.spotsUnless_eq_filter _ _ _ _ _ _ _).symm
  refine ⟨fuel, later.told close, ?_, ?_, ?_, hleft, htended.spares⟩
  · intro more
    rw [Walker.visit_eq_walk, hwalk more]
  · rw [htold, htended.visits, htold, hreached]
  · have hperm := Tree.map_spotsUnless_perm (world.store.isTrue reverse) (.node root children) []
      .null .null []
    exact (List.filter_sublist.map _).nodup (hperm.nodup_iff.mpr hnodup)

/-- A visitor that takes doomed nodes out of their lists. -/
def eraser (doomed : Value → Bool) (reverse : Bool) : Host Unit
  | _, .atPlace ⟨node, .int index, parent⟩, (store, user) =>
    if doomed node then
      let store := store.updateItems (store.children parent) (·.eraseIdx index.toNat)
      if reverse then .ok (.action .skip) (store, user)
      else
        let (answer, store) := store.alloc (.tuple [.action .skip, .int index])
        .ok answer (store, user)
    else .ok .null (store, user)
  | _, _, state => .ok .null state

theorem eraser_deletes (doomed : Value → Bool) (reverse : Bool) :
    Deletes (eraser doomed reverse) 0 doomed reverse where
  erase := by
    intro node parent index items store user hdoomed _ _
    cases reverse with
    | true => exact ⟨.action .skip, _, (), by simp [eraser, hdoomed], .refl _, rfl⟩
    | false =>
      let erased := store.updateItems (store.children parent) (·.eraseIdx index)
      let told := erased.alloc (.tuple [.action .skip, .int index])
      have hread : Directive.read told.2 told.1 = some ⟨.action .skip, .int index⟩ := by
        have hget := Store.get?_alloc_self erased (.tuple [.action .skip, .int index])
        show Directive.read told.2 (.cell ⟨erased.size⟩) = _
        simp only [told, Directive.read, hget]
        rfl
      refine ⟨told.1, told.2, (), ?_, Store.extends_alloc _ _, hread⟩
      simp [eraser, hdoomed, told, erased]
  spare := by
    rintro ⟨node, index, parent⟩ store user hspared
    refine ⟨.null, store, user, ?_, .refl store, rfl⟩
    cases index with
    | scalar s => cases s <;> simp [eraser, show doomed node = false from hspared]
    | cell ref => rfl
    | function f => rfl

/-- A root with two doomed nodes, a gap and a node with two children, of which
    the first is doomed; the second doomed node has a child of its own. -/
def orchard : Store :=
  ⟨#[.mapping [("children", .cell ⟨1⟩)], .list [.cell ⟨2⟩, .cell ⟨3⟩, .null, .cell ⟨4⟩],
    .mapping [], .mapping [("children", .cell ⟨5⟩)], .mapping [("children", .cell ⟨6⟩)],
    .list [.cell ⟨7⟩], .list [.cell ⟨8⟩, .cell ⟨9⟩], .mapping [], .mapping [], .mapping []]⟩

def orchardTrees : List Tree :=
  [.node (.cell ⟨2⟩) [], .node (.cell ⟨3⟩) [.node (.cell ⟨7⟩) []], .gap,
    .node (.cell ⟨4⟩) [.node (.cell ⟨8⟩) [], .node (.cell ⟨9⟩) []]]

theorem orchard_stands : (Tree.node (.cell ⟨0⟩) orchardTrees).StandsIn (· = orchard) := by
  have hleaf : ∀ address, address ∈ [2, 7, 8, 9] →
      (Tree.node (.cell ⟨address⟩) []).StandsIn (· = orchard) := by
    intro address haddress
    refine .leaf ?_
    rintro _ rfl
    revert address
    decide
  have hdoomed : (Tree.node (.cell ⟨3⟩) [.node (.cell ⟨7⟩) []]).StandsIn (· = orchard) := by
    refine .parent ?_ (by simp [Tree.value]) (by simpa using hleaf 7 (by simp))
    rintro _ rfl
    rfl
  have hspared : (Tree.node (.cell ⟨4⟩) [.node (.cell ⟨8⟩) [], .node (.cell ⟨9⟩) []]).StandsIn
      (· = orchard) := by
    refine .parent ?_ (by simp [Tree.value]) ?_
    · rintro _ rfl
      rfl
    · simpa using ⟨hleaf 8 (by simp), hleaf 9 (by simp)⟩
  refine .parent ?_ (by simp [orchardTrees, Tree.value]) ?_
  · rintro _ rfl
    rfl
  · simpa [orchardTrees] using ⟨hleaf 2 (by simp), hdoomed, .gap, hspared⟩

/-- Going forward, the two neighbours are taken out one after the other, and so
    is the first child of the last node. -/
theorem orchard_pruned :
    ∃ fuel final,
      (∀ more, visit (eraser (· ∈ [.cell ⟨2⟩, .cell ⟨3⟩, .cell ⟨8⟩]) false) .place
        ⟨.null, .function 0, .null⟩ false (fuel + more) (.cell ⟨0⟩) ⟨orchard, [], ()⟩ =
          some (.ok .finished final)) ∧
      nodesVisited final.journal =
        [(.cell ⟨9⟩, [.cell ⟨4⟩, .cell ⟨0⟩]), (.cell ⟨8⟩, [.cell ⟨4⟩, .cell ⟨0⟩]),
          (.cell ⟨4⟩, [.cell ⟨0⟩]), (.cell ⟨3⟩, [.cell ⟨0⟩]), (.cell ⟨2⟩, [.cell ⟨0⟩]),
          (.cell ⟨0⟩, [])] ∧
      (Tree.node (.cell ⟨0⟩) [.gap, .node (.cell ⟨4⟩) [.node (.cell ⟨9⟩) []]]).StandsIn
        (· = final.store) := by
  have hheld : ∀ node ∈ (Tree.node (.cell ⟨0⟩) orchardTrees).nodes, orchard.Holds node := by
    simp [orchardTrees, Tree.nodes, Tree.nodesOfAll, Store.Holds, Store.get?, orchard]
  have hnodup : (Tree.node (.cell ⟨0⟩) orchardTrees).nodes.Nodup := by
    simp [orchardTrees, Tree.nodes, Tree.nodesOfAll]
  obtain ⟨fuel, final, hvisit, hvisits, _, hleft, _⟩ := deletion_prunes _ 0 _ .null false
    ⟨orchard, [], ()⟩ (eraser_deletes (· ∈ [.cell ⟨2⟩, .cell ⟨3⟩, .cell ⟨8⟩]) false)
    (.cell ⟨0⟩) orchardTrees rfl orchard_stands hheld hnodup rfl
  exact ⟨fuel, final, hvisit, hvisits, hleft⟩

/-- A leaf whose type has a digit too many to be written has no doomed node above
    it, but the visitor that takes doomed nodes out is never called on it. -/
theorem numberLeaf_not_pruned :
    Deletes (eraser (fun _ => false) false) 0 (fun _ => false) false ∧
    (Tree.node (.cell ⟨0⟩) []).StandsIn (· = Store.numberLeaf (10 ^ Numeral.maxDigits)) ∧
    (Tree.node (.cell ⟨0⟩) []).reached (fun _ => false) false =
      [⟨[], { node := .cell ⟨0⟩ }, []⟩] ∧
    ∀ fuel, visit (eraser (fun _ => false) false) .place ⟨.null, .function 0, .null⟩ false fuel
        (.cell ⟨0⟩) ⟨Store.numberLeaf (10 ^ Numeral.maxDigits), [], ()⟩ =
      some (.error (.of .unwritableInteger)
        ⟨Store.numberLeaf (10 ^ Numeral.maxDigits), [], ()⟩) := by
  refine ⟨eraser_deletes _ _, .leaf ?_, rfl, ?_⟩
  · rintro _ rfl
    rfl
  · exact visit_fails_untold _ _ _ rfl rfl (Store.unwritable?_numberLeaf (Nat.le_refl _))

end Lineage
