import Lineage.Proofs.Walk.Deletion
import Lineage.Proofs.Walk.OnwardIndices

namespace Lineage

/-- The children of some nodes have at most been thinned out: nodes without
    children have none still, and lists of children may have lost members. -/
structure Store.Thins (nodes : List Value) (store later : Store) : Prop where
  leaves : ∀ node ∈ nodes, store.children node = .null → later.children node = .null
  lists : ∀ node ∈ nodes, ∀ items, store.cell? (store.children node) = some (.list items) →
    ∃ left, later.cell? (later.children node) = some (.list left) ∧ left.Sublist items

namespace Store

variable {nodes : List Value} {store middle later : Store}

theorem Thins.refl (nodes : List Value) (store : Store) : store.Thins nodes store where
  leaves := fun _ _ hleaf => hleaf
  lists := fun _ _ items hlist => ⟨items, hlist, List.Sublist.refl items⟩

theorem Thins.trans (hfirst : store.Thins nodes middle) (hsecond : middle.Thins nodes later) :
    store.Thins nodes later where
  leaves := fun node hnode hleaf => hsecond.leaves node hnode (hfirst.leaves node hnode hleaf)
  lists := by
    intro node hnode items hlist
    obtain ⟨left, hleft, hfewer⟩ := hfirst.lists node hnode items hlist
    obtain ⟨last, hlast, hless⟩ := hsecond.lists node hnode left hleft
    exact ⟨last, hlast, hless.trans hfewer⟩

/-- Lists have no properties, so that another list in the place of one changes
    none. -/
theorem property?_put_list {ref : Ref} {items : List Value}
    (hlist : store.get? ref = some (.list items)) (others : List Value) (node : Value)
    (key : String) : (store.put ref (.list others)).property? node key = store.property? node key := by
  cases node with
  | scalar s => rfl
  | function f => rfl
  | cell other =>
    show ((store.put ref (.list others)).get? other).bind _ = (store.get? other).bind _
    by_cases hsame : ref = other
    · subst hsame
      rw [get?_put_self store ref _ (address_lt_of_get? hlist), hlist]
      rfl
    · rw [get?_put_of_ne store ref other _ hsame]

theorem children_put_list {ref : Ref} {items : List Value}
    (hlist : store.get? ref = some (.list items)) (others : List Value) (node : Value) :
    (store.put ref (.list others)).children node = store.children node := by
  rw [children, children, property?_put_list hlist]

theorem property?_updateItems (list : Value) (f : List Value → List Value) (node : Value)
    (key : String) : (store.updateItems list f).property? node key = store.property? node key := by
  unfold updateItems
  split
  · split
    · next hlist => exact property?_put_list hlist _ node key
    · rfl
  · rfl

/-- Whatever list members are deleted from, children are at most thinned out. -/
theorem thins_updateItems {f : List Value → List Value} (hdeletes : ∀ items, (f items).Sublist items)
    (nodes : List Value) (list : Value) : store.Thins nodes (store.updateItems list f) := by
  unfold updateItems
  split
  · next ref =>
    split
    · next items hlist =>
      refine ⟨fun node _ hleaf => by rw [children_put_list hlist, hleaf], ?_⟩
      intro node _ members hmembers
      rw [children_put_list hlist]
      by_cases hsame : store.children node = .cell ref
      · rw [hsame] at hmembers ⊢
        obtain rfl : items = members := by
          rw [show store.cell? (.cell ref) = some (.list items) from hlist] at hmembers
          cases hmembers
          rfl
        exact ⟨f items, get?_put_self store ref _ (address_lt_of_get? hlist), hdeletes items⟩
      · refine ⟨members, ?_, List.Sublist.refl members⟩
        cases hchildren : store.children node with
        | scalar s => rw [hchildren] at hmembers; cases hmembers
        | function g => rw [hchildren] at hmembers; cases hmembers
        | cell other =>
          rw [hchildren] at hmembers hsame
          have hother : ref ≠ other := fun hequal => hsame (hequal ▸ rfl)
          exact (get?_put_of_ne store ref other _ hother).trans hmembers
    · exact .refl nodes store
  · exact .refl nodes store

end Store

/-- The place of the root or of a child, if the nodes are among some nodes. -/
inductive Place.Among (nodes : List Value) : Place → Prop where
  | root {node : Value} (hnode : node ∈ nodes) : Among nodes { node }
  | child {node parent : Value} (n : Nat) (hnode : node ∈ nodes) (hparent : parent ∈ nodes) :
      Among nodes ⟨node, .int n, parent⟩

theorem Place.Among.node {nodes : List Value} {place : Place} (hamong : place.Among nodes) :
    place.node ∈ nodes := by
  cases hamong with
  | root hnode => exact hnode
  | child _ hnode _ => exact hnode

variable {σ : Type}

namespace Walker

/-- At a place, a node that can be labelled, a check that changes nothing, and a
    visitor that asks for no index and at most thins out the children of some
    nodes, in every store that came about from a first one in this way. A label or
    an answer that cannot be written may make the walk fail. -/
structure Thinning (walker : Walker σ) (base : Store) (nodes : List Value)
    (kept : Store → σ → Prop) (mayFail : Prop) (place : Place) (lineage : List Value) : Prop where
  label : ∀ store user, base.Thins nodes store → kept store user →
    store.CanLabel place.node ∨ mayFail
  check : ∀ world, base.Thins nodes world.store → kept world.store world.user →
    (∃ verdict, walker.check place world = .ok verdict world) ∨
      mayFail ∧ ∃ fault, walker.check place world = .error fault world
  visit : ∀ world, base.Thins nodes world.store → kept world.store world.user →
    ∃ store user, world.store.Thins nodes store ∧ kept store user ∧
      ((∃ answer, walker.visit place lineage world = .ok answer ⟨store, world.journal, user⟩ ∧
          ((Directive.read store answer).getD {}).index = .null ∧ (store.Settles answer ∨ mayFail)) ∨
        mayFail ∧ ∃ fault,
          walker.visit place lineage world = .error fault ⟨store, world.journal, user⟩)

/-- Some nodes were put to the check between two worlds, in this order, and the
    visitor was called on some of these. -/
structure Met (world : World σ) (met : List Value) (final : World σ) : Prop where
  offered : (offeredOf final.journal).map Place.node =
    met.reverse ++ (offeredOf world.journal).map Place.node
  visited : ∃ seen : List Value, seen.Sublist met ∧
    (visitsOf final.journal).map (fun visit => visit.1.node) =
      seen.reverse ++ (visitsOf world.journal).map fun visit => visit.1.node

/-- A part of a recursive walk that comes to an end, at most thins out children,
    and going forward meets none but some nodes, in their order and each once.
    If the walk goes on after it, the part has a good result. If the walk exits
    at a node, it can say so. -/
def Meets {α : Type} (walker : Walker σ) (nodes : List Value) (kept : Store → σ → Prop)
    (mayFail : Prop) (good : α → Prop) (part : Visiting σ α) (ahead : List Value)
    (world : World σ) : Prop :=
  ∃ met final, (walker.reverse = false → met.Sublist ahead) ∧ Met world met final ∧
    world.store.Thins nodes final.store ∧
    ((∃ a, part world = .ok a final ∧ good a ∧ kept final.store final.user) ∨
      (∃ place, part world = .error (.exited place) final ∧
        (final.store.CanLabel place.node ∨ mayFail)) ∨
      mayFail ∧ ∃ fault, part world = .error (.failed fault) final)

section Composition

variable {α β : Type} {walker : Walker σ} {nodes first second : List Value}
  {kept : Store → σ → Prop} {mayFail : Prop} {good : α → Prop} {fine : β → Prop}
  {world middle final : World σ}

theorem Met.of_callsIn (hcalls : callsIn final.journal = callsIn world.journal) :
    Met world [] final where
  offered := by
    rw [← offeredOf_callsIn final.journal, hcalls, offeredOf_callsIn]
    rfl
  visited := by
    refine ⟨[], List.Sublist.refl _, ?_⟩
    rw [← visitsOf_callsIn final.journal, hcalls, visitsOf_callsIn]
    rfl

theorem Met.trans (hfirst : Met world first middle) (hsecond : Met middle second final) :
    Met world (first ++ second) final where
  offered := by
    rw [hsecond.offered, hfirst.offered, List.reverse_append, List.append_assoc]
  visited := by
    obtain ⟨before, hbefore, hmiddle⟩ := hfirst.visited
    obtain ⟨after, hafter, hfinal⟩ := hsecond.visited
    refine ⟨before ++ after, hbefore.append hafter, ?_⟩
    rw [hfinal, hmiddle, List.reverse_append, List.append_assoc]

theorem Meets.idle {part : Visiting σ α} {a : α} (hpart : part world = .ok a world) (hgood : good a)
    (hkept : kept world.store world.user) (ahead : List Value) :
    walker.Meets nodes kept mayFail good part ahead world :=
  ⟨[], world, fun _ => List.nil_sublist ahead, .of_callsIn rfl, .refl nodes world.store,
    .inl ⟨a, hpart, hgood, hkept⟩⟩

theorem Meets.bind {part : Visiting σ α} {next : α → Visiting σ β}
    (hpart : walker.Meets nodes kept mayFail good part first world)
    (hnext : ∀ a later, good a → world.store.Thins nodes later.store →
      kept later.store later.user → walker.Meets nodes kept mayFail fine (next a) second later) :
    walker.Meets nodes kept mayFail fine (part >>= next) (first ++ second) world := by
  change ∃ met final, _ ∧ _ ∧ _ ∧ ((∃ b, EStateM.bind part next world = _ ∧ _) ∨
    (∃ place, EStateM.bind part next world = _ ∧ _) ∨
      _ ∧ ∃ fault, EStateM.bind part next world = _)
  obtain ⟨met, middle, hmet, hmiddle, hthins, hended⟩ := hpart
  have hshorter : walker.reverse = false → met.Sublist (first ++ second) :=
    fun hforward => (hmet hforward).trans (List.sublist_append_left first second)
  rcases hended with ⟨a, ha, hgood, hkept⟩ | ⟨place, hexits, hlabel⟩ | ⟨hmay, fault, hfails⟩
  · obtain ⟨others, final, hothers, hfinal, hmore, hlast⟩ := hnext a middle hgood hthins hkept
    refine ⟨met ++ others, final, fun hforward => (hmet hforward).append (hothers hforward),
      hmiddle.trans hfinal, hthins.trans hmore, ?_⟩
    simpa only [EStateM.bind, ha] using hlast
  · refine ⟨met, middle, hshorter, hmiddle, hthins, .inr (.inl ⟨place, ?_, hlabel⟩)⟩
    simp only [EStateM.bind, hexits]
  · refine ⟨met, middle, hshorter, hmiddle, hthins, .inr (.inr ⟨hmay, fault, ?_⟩)⟩
    simp only [EStateM.bind, hfails]

theorem Meets.widen {part : Visiting σ α}
    (hpart : walker.Meets nodes kept mayFail good part first world)
    (hmore : walker.reverse = false → first.Sublist second) :
    walker.Meets nodes kept mayFail good part second world := by
  obtain ⟨met, final, hmet, hrest⟩ := hpart
  exact ⟨met, final, fun hforward => (hmet hforward).trans (hmore hforward), hrest⟩

theorem Meets.congr {part other : Visiting σ α} (hsame : part world = other world)
    (hother : walker.Meets nodes kept mayFail good other first world) :
    walker.Meets nodes kept mayFail good part first world := by
  unfold Meets
  rw [hsame]
  exact hother

end Composition

section Node

variable {walker : Walker σ} {base : Store} {nodes : List Value} {kept : Store → σ → Prop}
  {mayFail : Prop} {place : Place} {lineage : List Value} {world : World σ}
  (hthins : base.Thins nodes world.store) (hkept : kept world.store world.user)

include hthins hkept

/-- Dealing with a node meets it, whatever comes of it. -/
theorem Thinning.one (hthinning : walker.Thinning base nodes kept mayFail place lineage) :
    ∃ final, Met world [place.node] final ∧ world.store.Thins nodes final.store ∧
      ((∃ directive, walker.one place lineage world = .ok directive final ∧
          directive.index = .null ∧ kept final.store final.user) ∨
        mayFail ∧ ∃ fault, walker.one place lineage world = .error fault final) := by
  let offered : World σ := { world with journal := .offered place :: world.journal }
  have hoffered : Met world [place.node] offered := ⟨rfl, [], List.nil_sublist _, rfl⟩
  rcases hthinning.check offered hthins hkept with ⟨verdict, hcheck⟩ | ⟨hmay, fault, hcheck⟩
  · cases verdict with
    | false =>
      refine ⟨offered, hoffered, .refl nodes world.store, .inl ⟨{}, ?_, rfl, hkept⟩⟩
      exact walker.one_of_consult (walker.consult_rejected hcheck)
    | true =>
      let visited : World σ :=
        { offered with journal := .visited place lineage :: offered.journal }
      have hvisited : ∀ store user,
          Met world [place.node] (⟨store, visited.journal, user⟩ : World σ) :=
        fun _ _ => ⟨rfl, [place.node], List.Sublist.refl _, rfl⟩
      obtain ⟨store, user, hstore, huser,
        ⟨answer, hvisit, hindex, hsettles⟩ | ⟨hmay, fault, hvisit⟩⟩ :=
        hthinning.visit visited hthins hkept
      · obtain ⟨journal, hcalls, hheard⟩ := ofAnswer_heard answer ⟨store, visited.journal, user⟩
        have hmet : Met world [place.node] (⟨store, journal, user⟩ : World σ) := by
          simpa using (hvisited store user).trans (.of_callsIn hcalls)
        refine ⟨⟨store, journal, user⟩, hmet, hstore, ?_⟩
        rcases heard_cases store answer with
          ⟨directive, hdirective, hread, _⟩ | ⟨fault, hfault, hunsettled⟩
        · rw [hread] at hindex
          rw [hdirective] at hheard
          exact .inl ⟨directive,
            walker.one_of_consult ((walker.consult_called hcheck hvisit).trans hheard), hindex, huser⟩
        · rw [hfault] at hheard
          exact .inr ⟨hsettles.resolve_left hunsettled, _,
            (Raises.answer hcheck hvisit hheard).one_fails⟩
      · exact ⟨_, hvisited store user, hstore,
          .inr ⟨hmay, _, (Raises.visit hcheck hvisit).one_fails⟩⟩
  · exact ⟨offered, hoffered, .refl nodes world.store,
      .inr ⟨hmay, _, (Raises.check hcheck).one_fails⟩⟩

/-- Visiting a node meets it and then what visiting its children meets. -/
theorem visitOne_meets (hthinning : walker.Thinning base nodes kept mayFail place lineage)
    {loop : List Value → Value → Value → Visiting σ Unit} {below : List Value}
    (hbelow : ∀ later : World σ, base.Thins nodes later.store → kept later.store later.user →
      later.store.children place.node = .null ∨
        ∃ cursor, walker.startOf later.store (later.store.children place.node) = .ok cursor ∧
          walker.Meets nodes kept mayFail (fun _ => True)
            (loop (place.node :: lineage) place.node cursor) below later) :
    walker.Meets nodes kept mayFail (· = .null) (walker.visitOne loop lineage place)
      (place.node :: below) world := by
  have honly : walker.reverse = false → [place.node].Sublist (place.node :: below) :=
    fun _ => (List.nil_sublist below).cons_cons place.node
  obtain ⟨middle, hmet, hmiddle, ⟨directive, hone, hindex, huser⟩ | ⟨hmay, fault, hone⟩⟩ :=
    hthinning.one hthins hkept
  · by_cases hexit : directive.action = .action .exit
    · exact ⟨_, middle, honly, hmet, hmiddle,
        .inr (.inl ⟨place, visitOne_exits walker _ _ _ hone hexit,
          hthinning.label _ _ (hthins.trans hmiddle) huser⟩)⟩
    · by_cases hstay :
        middle.store.children place.node = .null ∨ directive.action = .action .skip
      · have hstays := visitOne_stays walker loop _ _ hone hexit hstay
        exact ⟨_, middle, honly, hmet, hmiddle, .inl ⟨_, hstays, hindex, huser⟩⟩
      · rcases hbelow middle (hthins.trans hmiddle) huser with hleaf | ⟨cursor, hstart, hloop⟩
        · exact (hstay (.inl hleaf)).elim
        · have hdescends := visitOne_descends walker loop _ _ hone hexit hstay hstart
          have hall : walker.Meets nodes kept mayFail (· = .null)
              (loop (place.node :: lineage) place.node cursor >>= fun _ => pure directive.index)
              (below ++ []) middle :=
            hloop.bind fun _ _ _ _ hlater => Meets.idle (a := directive.index) rfl hindex hlater []
          obtain ⟨others, final, hothers, hfinal, hlater, hended⟩ := hall
          rw [List.append_nil] at hothers
          rw [Meets, hdescends]
          exact ⟨place.node :: others, final, fun hforward => (hothers hforward).cons_cons _,
            hmet.trans hfinal, hmiddle.trans hlater, hended⟩
  · exact ⟨_, middle, honly, hmet, hmiddle,
      .inr (.inr ⟨hmay, fault, visitOne_fails walker _ _ _ hone⟩)⟩

end Node

/-- How many children a walk may still come to from a place on among so many. -/
def placesLeft (reverse : Bool) (length : Nat) (place : Int) : Nat :=
  if reverse then (place + 1).toNat else length - place.toNat

section Children

variable {walker : Walker σ} {base : Store} {nodes : List Value} {kept : Store → σ → Prop}
  {mayFail : Prop} {children : List Tree} {parent : Value} {lineage : List Value}

theorem nodesOfAll_sublist {fewer forest : List Tree} (hfewer : fewer.Sublist forest) :
    (Tree.nodesOfAll fewer).Sublist (Tree.nodesOfAll forest) := by
  induction hfewer with
  | slnil => exact List.Sublist.refl _
  | cons child _ ih => exact ih.trans (List.sublist_append_right child.nodes _)
  | cons_cons child _ ih => exact (List.Sublist.refl child.nodes).append ih

/-- Whatever is left of the children of a node, from any place on no more is met
    going forward than the nodes of those that stand there. A child may have
    others thinned out, but then those from the next place on are some of those
    that were there from the next place on. The limit goes down with each turn,
    and with it how many children are left. -/
theorem visitChildren_meets (bound : Nat) (hparent : parent ∈ nodes)
    (hgaps : ∀ child ∈ children, child.value = .null → child = .gap)
    (hchild : ∀ child ∈ children, child ≠ .gap → ∀ limit, bound ≤ limit → ∀ (n : Nat)
      (world : World σ), base.Thins nodes world.store → kept world.store world.user →
      walker.Meets nodes kept mayFail (· = .null)
        (walker.visitOne (walker.visitChildren limit) lineage ⟨child.value, .int n, parent⟩)
        child.nodes world)
    {limit : Nat} {place : Int} {left : List Tree} {world : World σ}
    (hleft : left.Sublist children)
    (hlist : world.store.cell? (world.store.children parent) = some (.list (left.map Tree.value)))
    (hthins : base.Thins nodes world.store) (hkept : kept world.store world.user)
    (hlimit : bound + placesLeft walker.reverse left.length place < limit) :
    walker.Meets nodes kept mayFail (fun _ => True)
      (walker.visitChildren limit lineage parent (.int place))
      (Tree.nodesOfAll (left.drop place.toNat)) world := by
  induction limit generalizing place left world with
  | zero => omega
  | succ limit ih =>
    by_cases hinside : 0 ≤ place ∧ place < left.length
    · obtain ⟨n, rfl⟩ := Int.eq_ofNat_of_zero_le hinside.1
      have hn : n < left.length := by omega
      have hread : world.store.childAt (world.store.children parent) (.int n) =
          .ok (some left[n].value) := by
        rw [Store.childAt_list hlist (by simpa using hn), List.getElem_map]
      have hmem : left[n] ∈ children := hleft.subset (List.getElem_mem hn)
      have hdrop : Tree.nodesOfAll (left.drop n) =
          left[n].nodes ++ Tree.nodesOfAll (left.drop (n + 1)) := by
        rw [List.drop_eq_getElem_cons hn, Tree.nodesOfAll]
      rw [Int.toNat_natCast, hdrop]
      -- At the next place, some of those that were there are left.
      have hmore : ∀ later : World σ, world.store.Thins nodes later.store →
          kept later.store later.user →
          walker.Meets nodes kept mayFail (fun _ => True)
            (walker.visitChildren limit lineage parent (.int (n + walker.stride)))
            (Tree.nodesOfAll (left.drop (n + 1))) later := by
        intro later hlater huser
        obtain ⟨values, hvalues, hfewer⟩ := hlater.lists parent hparent _ hlist
        obtain ⟨still, hstill, rfl⟩ := List.sublist_map_iff.mp hfewer
        have hshorter := hstill.length_le
        have hnext : bound + placesLeft walker.reverse still.length (n + walker.stride) < limit := by
          unfold placesLeft at hlimit ⊢
          unfold Walker.stride
          cases hreverse : walker.reverse with
          | true =>
            simp only [hreverse, if_true] at hlimit ⊢
            omega
          | false =>
            simp only [hreverse, Bool.false_eq_true, if_false] at hlimit ⊢
            omega
        refine (ih (hstill.trans hleft) hvalues (hthins.trans hlater) huser hnext).widen ?_
        intro hforward
        have hplace : ((n : Int) + walker.stride).toNat = n + 1 := by
          simp only [Walker.stride, hforward, Bool.false_eq_true, if_false]
          omega
        rw [hplace]
        exact nodesOfAll_sublist (hstill.drop (n + 1))
      by_cases hgap : left[n] = .gap
      · rw [hgap] at hread ⊢
        exact .congr (visitChildren_passes walker hread) (hmore world (.refl _ _) hkept)
      · have hnode : left[n].value ≠ .null := fun hnull => hgap (hgaps _ hmem hnull)
        refine .congr (visitChildren_child walker hnode hread) ?_
        refine (hchild _ hmem hgap limit (by omega) n world hthins hkept).bind ?_
        rintro _ later rfl hlater huser
        exact hmore later hlater huser
    · exact .idle (visitChildren_ends walker
        (Store.childAt_list_outside hlist (by simpa using hinside))) trivial hkept _

end Children

section Whole

variable {walker : Walker σ} {base : Store} {nodes : List Value} {kept : Store → σ → Prop}
  {mayFail : Prop}

/-- Visiting a tree whose nodes are among some ends and meets none but its own
    nodes, wherever its children have been thinned out. The induction follows
    the tree as it was at first. -/
theorem tree_meets
    (hthinning : ∀ place lineage, place.Among nodes → (∀ node ∈ lineage, node ∈ nodes) →
      walker.Thinning base nodes kept mayFail place lineage)
    {tree : Tree} (hstands : tree.StandsIn (· = base)) (hnodes : ∀ node ∈ tree.nodes, node ∈ nodes) :
    ∃ bound, ∀ limit, bound ≤ limit → tree ≠ .gap → ∀ (place : Place) (lineage : List Value)
      (world : World σ), place.node = tree.value → place.Among nodes →
      (∀ node ∈ lineage, node ∈ nodes) → base.Thins nodes world.store →
      kept world.store world.user →
      walker.Meets nodes kept mayFail (· = .null)
        (walker.visitOne (walker.visitChildren limit) lineage place) tree.nodes world := by
  induction hstands with
  | gap => exact ⟨0, fun _ _ hgap => (hgap rfl).elim⟩
  | @leaf value hleaf =>
    refine ⟨0, ?_⟩
    intro limit _ _ place lineage world hplace hamong hlineage hthins hkept
    rw [Tree.nodes, Tree.nodesOfAll, ← show place.node = value from hplace]
    refine visitOne_meets hthins hkept (hthinning place lineage hamong hlineage) ?_
    intro later hlater _
    refine .inl (hlater.leaves place.node hamong.node ?_)
    rw [show place.node = value from hplace]
    exact hleaf base rfl
  | @parent value children hlist hgaps _ ih =>
    -- Each child takes one off the limit, and the deepest of them needs `bound`.
    have hbelow : ∀ child ∈ children, ∀ node ∈ child.nodes, node ∈ nodes := fun child hchild node hnode =>
      hnodes node (List.mem_cons_of_mem value (Tree.mem_nodesOfAll.mpr ⟨child, hchild, hnode⟩))
    obtain ⟨bound, hbound⟩ := exists_bound_of_forall_mem fun child hchild =>
      ih child hchild (hbelow child hchild)
    refine ⟨bound + children.length + 1, ?_⟩
    intro limit hlimit _ place lineage world hplace hamong hlineage hthins hkept
    have hnode : place.node = value := hplace
    rw [Tree.nodes, ← hnode]
    refine visitOne_meets hthins hkept (hthinning place lineage hamong hlineage) ?_
    intro later hlater huser
    obtain ⟨values, hvalues, hfewer⟩ :=
      hlater.lists place.node hamong.node _ (hnode ▸ hlist base rfl)
    obtain ⟨left, hleft, rfl⟩ := List.sublist_map_iff.mp hfewer
    refine .inr ⟨_, startOf_list hvalues, ?_⟩
    rw [List.length_map]
    have hshorter := hleft.length_le
    refine (visitChildren_meets bound hamong.node hgaps ?_ hleft hvalues hlater huser ?_).widen ?_
    · intro child hchild hgap less hless n inner hinner hinside
      have hmem : child.value ∈ nodes := by
        refine hbelow child hchild _ ?_
        cases child with
        | gap => exact (hgap rfl).elim
        | node value children => exact List.mem_cons_self
      exact hbound child hchild less hless hgap ⟨child.value, .int n, place.node⟩ _ inner rfl
        (.child n hmem hamong.node) (List.forall_mem_cons.mpr ⟨hamong.node, hlineage⟩) hinner hinside
    · unfold placesLeft
      split <;> omega
    · intro hforward
      simp only [hforward, Bool.false_eq_true, if_false]
      exact nodesOfAll_sublist hleft

/-- A walk over a tree whose children are thinned out on the way ends. Going
    forward it meets some of the nodes, in pre-order. -/
theorem walk_meets {tree : Tree} (hnode : tree ≠ .gap) {world : World σ}
    (hstands : tree.StandsIn (· = world.store))
    (hthinning : ∀ place lineage, place.Among tree.nodes → (∀ node ∈ lineage, node ∈ tree.nodes) →
      walker.Thinning world.store tree.nodes kept mayFail place lineage)
    (hkept : kept world.store world.user) :
    ∃ fuel outcome final met, walker.walk fuel tree.value world = some outcome ∧
      ((∃ ending, outcome = .ok ending final) ∨ mayFail ∧ ∃ fault, outcome = .error fault final) ∧
      (walker.reverse = false → met.Sublist tree.nodes) ∧ Met world met final := by
  obtain ⟨limit, hmeets⟩ := tree_meets hthinning hstands fun _ hmem => hmem
  have hroot : tree.value ∈ tree.nodes := by
    cases tree with
    | gap => exact (hnode rfl).elim
    | node value children => exact List.mem_cons_self
  -- The recursion is followed to its end, and the loop comes to the same.
  rcases walker.announce_cases tree.value world with
    ⟨fault, hhead, hannounce⟩ | ⟨message, _, hannounce⟩
  · have hlabel := (hthinning { node := tree.value } [] (.root hroot) (by simp)).label _ _
      (.refl tree.nodes world.store) hkept
    exact ⟨0, _, world, [], walker.walk_announce_fails hannounce 0,
      .inr ⟨hlabel.resolve_left (by simp [Store.CanLabel, hhead]), fault, rfl⟩,
      fun _ => List.nil_sublist _, .of_callsIn rfl⟩
  obtain ⟨met, later, hsublist, hmet, _, hended⟩ :=
    hmeets limit (Nat.le_refl limit) hnode { node := tree.value } [] (world.told message) rfl
      (.root hroot) (by simp) (.refl tree.nodes world.store) hkept
  have hwhole : Met world met later :=
    (Met.of_callsIn (callsIn_told world message)).trans hmet
  have hclosed : ∀ close, Met world met (later.told close) := by
    intro close
    simpa using hwhole.trans (.of_callsIn (callsIn_told later close))
  rcases hended with ⟨index, hdone, _⟩ | ⟨place, hexits, hlabel⟩ | ⟨hmay, fault, hfails⟩
  · obtain ⟨fuel, close, hwalk⟩ :=
      walk_of_recursion hannounce (walker.walkRecursively_ok hdone)
    exact ⟨fuel, _, _, met, hwalk, .inl ⟨_, rfl⟩, hsublist, hclosed close⟩
  · obtain ⟨fuel, outcome, hwalk, htells⟩ :=
      walk_tells hannounce (walker.walkRecursively_halts hexits) (by simp)
    cases htells with
    | exited _ _ close => exact ⟨fuel, _, _, met, hwalk, .inl ⟨_, rfl⟩, hsublist, hclosed close⟩
    | @untold _ _ fault _ hhead =>
      exact ⟨fuel, _, _, met, hwalk,
        .inr ⟨hlabel.resolve_left (by simp [Store.CanLabel, hhead]), fault, rfl⟩, hsublist, hwhole⟩
  · obtain ⟨fuel, outcome, hwalk, htells⟩ :=
      walk_tells hannounce (walker.walkRecursively_halts hfails) (by simp)
    cases htells with
    | failed => exact ⟨fuel, _, _, met, hwalk, .inr ⟨hmay, fault, rfl⟩, hsublist, hwhole⟩

end Whole

end Walker

/-- For every tree of lists in which no node occurs twice, check that changes
    nothing and visitor that asks for no index and changes the tree only by
    deleting from lists of children, be they of the node, of its ancestors, of
    its siblings or of others, the walk ends in both directions, and without a
    failure unless the check or the visitor fails, or a label or an answer cannot
    be written. Going forward it puts nodes
    of the tree to the check in pre-order and visits some of these, none of
    them twice. -/
theorem thinning_visit_meets_each_once (host : Host σ) (manner : Manner) (arguments : Arguments)
    (annotate : Bool) (world : World σ) {request : Request}
    (hresolve : arguments.resolve world.store = .ok request)
    {check : Check} {converted : World σ}
    (hconvert : Check.convert request.test world = .ok check converted)
    (kept : Store → σ → Prop) (hkept : kept world.store world.user) (mayFail : Prop)
    (tree : Tree) (hnode : tree ≠ .gap) (hstands : tree.StandsIn (· = world.store))
    (hnodup : tree.nodes.Nodup)
    (hthinning : ∀ place lineage, place.Among tree.nodes → (∀ node ∈ lineage, node ∈ tree.nodes) →
      (request.walker host manner annotate check).Thinning world.store tree.nodes kept mayFail place
        lineage) :
    ∃ fuel outcome final,
      (∀ more, visit host manner arguments annotate (fuel + more) tree.value world =
        some outcome) ∧
      ((∃ ending, outcome = .ok ending final) ∨ mayFail ∧ ∃ fault, outcome = .error fault final) ∧
      (request.reverse = false → ∃ met seen : List Value,
        met.Sublist tree.nodes ∧ seen.Sublist met ∧ met.Nodup ∧ seen.Nodup ∧
        (offeredOf final.journal).map Place.node =
          met.reverse ++ (offeredOf world.journal).map Place.node ∧
        (visitsOf final.journal).map (fun visit => visit.1.node) =
          seen.reverse ++ (visitsOf world.journal).map fun visit => visit.1.node) := by
  have htold : world.ToldMore converted :=
    Check.convertAt_toldMore _ request.test world check converted hconvert
  rw [← htold.store] at hstands hthinning
  obtain ⟨fuel, outcome, final, met, hwalk, hended, hsublist, hmet⟩ :=
    Walker.walk_meets hnode hstands hthinning (by rw [htold.store, htold.user]; exact hkept)
  obtain ⟨hoffered, seen, hseen, hvisited⟩ : Walker.Met world met final :=
    (Walker.Met.of_callsIn htold.calls).trans hmet
  refine ⟨fuel, outcome, final, ?_, hended, ?_⟩
  · intro more
    simp only [visit, hresolve, hconvert]
    exact Walker.walk_mono hwalk
  · intro hforward
    have hmost := hsublist hforward
    exact ⟨met, seen, hmost, hseen, hmost.nodup hnodup, (hseen.trans hmost).nodup hnodup, hoffered,
      hvisited⟩

/-- The visitor takes the first member out of a list each time it is called,
    whatever it is called on. -/
def plucker (list : Value) : Host Unit
  | _, _, (store, user) => .ok .null (store.updateItems list (·.drop 1), user)

theorem plucker_thinning (list : Value) (reverse : Bool) (base : Store) {nodes : List Value}
    {place : Place} (hamong : place.Among nodes) (lineage : List Value) :
    (Request.walker ⟨.null, .function 0, reverse⟩ (plucker list) .place false .anything).Thinning
      base nodes (fun store _ => ∀ node ∈ nodes, store.typeOf node = .null) False place lineage where
  label := fun store _ _ hkept => .inl (Store.canLabel_of_null (hkept _ hamong.node))
  check := fun _ _ _ => .inl ⟨true, rfl⟩
  visit := by
    intro world _ hkept
    refine ⟨world.store.updateItems list (·.drop 1), world.user,
      Store.thins_updateItems (fun items => List.drop_sublist 1 items) nodes list, ?_,
      .inl ⟨.null, rfl, rfl, .inl (Store.settles_of_read rfl)⟩⟩
    intro node hnode
    rw [Store.typeOf, Store.property?_updateItems]
    exact hkept node hnode

/-- The children of the root are taken out one after another while they are
    walked, and some of them before they are met. -/
theorem plucked_visit_ends : ∃ fuel ending final, ∃ seen : List Value,
    (∀ more, visit (plucker (.cell ⟨1⟩)) .place ⟨.null, .function 0, .null⟩ false (fuel + more)
      (.cell ⟨0⟩) ⟨orchard, [], ()⟩ = some (.ok ending final)) ∧
    seen.Sublist (Tree.node (.cell ⟨0⟩) orchardTrees).nodes ∧ seen.Nodup ∧
    (visitsOf final.journal).map (fun visit => visit.1.node) = seen.reverse := by
  have hnodup : (Tree.node (.cell ⟨0⟩) orchardTrees).nodes.Nodup := by
    simp [orchardTrees, Tree.nodes, Tree.nodesOfAll]
  obtain ⟨fuel, outcome, final, hvisit, ⟨ending, hending⟩ | ⟨hfalse, _⟩, hforward⟩ :=
    @thinning_visit_meets_each_once Unit (plucker (.cell ⟨1⟩)) .place ⟨.null, .function 0, .null⟩
      false ⟨orchard, [], ()⟩ ⟨.null, .function 0, false⟩ rfl .anything ⟨orchard, [], ()⟩ rfl
      (fun store _ => ∀ node ∈ (Tree.node (.cell ⟨0⟩) orchardTrees).nodes, store.typeOf node = .null)
      (by decide) False (Tree.node (.cell ⟨0⟩) orchardTrees) (by simp) orchard_stands hnodup
      fun place lineage hamong _ => plucker_thinning (.cell ⟨1⟩) false _ hamong lineage
  · obtain ⟨met, seen, hmet, hseen, _, hdistinct, _, hvisited⟩ := hforward rfl
    exact ⟨fuel, ending, final, seen, hending ▸ hvisit, hseen.trans hmet, hdistinct,
      hvisited.trans (List.append_nil _)⟩
  · exact hfalse.elim

end Lineage
