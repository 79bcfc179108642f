import Lineage.Proofs.Node.Children
import Lineage.Proofs.Tree.Siblings
import Lineage.Proofs.Walk.LoopFollowsRecursion
import Lineage.Proofs.Walk.VisitOrder

namespace Lineage

variable {σ : Type}

namespace Walker

section Whole

variable {host : Host σ} {visitor : Value} {kept : Store → Prop} {passes : Place → Bool}
  {answer : List Nat → Action} {walker : Walker σ}

/-- The children of a parent are covered from any cursor on, if each of them is
    wherever the recursion has some depth left. The induction is on the
    children ahead. -/
theorem visitChildren_covers {children : List Tree} {path : List Nat} {parent : Value}
    {lineage : List Value} {prune : Spot → Bool} (bound : Nat)
    (hlist : ∀ store, kept store →
      store.cell? (store.children parent) = some (.list (children.map Tree.value)))
    (hgaps : ∀ child ∈ children, child.value = .null → child = .gap)
    (hchild : ∀ n (hn : n < children.length), children[n] ≠ .gap → ∀ limit, bound ≤ limit →
      Covers host visitor kept passes answer
        (walker.visitOne (walker.visitChildren limit) lineage
          ⟨children[n].value, .int n, parent⟩) .null
        (children[n].spotsUnless prune walker.reverse (n :: path) (.int n) parent lineage))
    {rest : List (Tree × Nat)} {cursor : Int} {limit : Nat}
    (htrack : OnTrack walker.reverse children cursor)
    (hahead : ahead walker.reverse children cursor = rest) (hlimit : bound + rest.length < limit) :
    Covers host visitor kept passes answer
      (walker.visitChildren limit lineage parent (.int cursor)) ()
      (rest.flatMap fun pair =>
        pair.1.spotsUnless prune walker.reverse (pair.2 :: path) (.int pair.2) parent lineage) := by
  induction rest generalizing cursor limit with
  | nil =>
    obtain ⟨limit, rfl⟩ : ∃ less, limit = less + 1 := ⟨limit - 1, by omega⟩
    have houtside : ¬ (0 ≤ cursor ∧ cursor < children.length) := by
      rintro ⟨hfrom, hbelow⟩
      obtain ⟨n, rfl⟩ := Int.eq_ofNat_of_zero_le hfrom
      rw [ahead_cons (by omega)] at hahead
      cases hahead
    refine Covers.congr (pure ()) ?_ (Covers.pure ())
    intro world hkept
    apply visitChildren_ends
    exact Store.childAt_list_outside (hlist _ hkept) (by simpa using houtside)
  | cons pair rest ih =>
    obtain ⟨limit, rfl⟩ : ∃ less, limit = less + 1 := ⟨limit - 1, by omega⟩
    obtain ⟨hfrom, hbelow⟩ := inside_of_ahead_cons htrack hahead
    obtain ⟨n, rfl⟩ := Int.eq_ofNat_of_zero_le hfrom
    have hn : n < children.length := by omega
    rw [ahead_cons hn] at hahead
    obtain ⟨rfl, hrest⟩ := List.cons.inj hahead
    have hread : ∀ store, kept store → store.childAt (store.children parent) (.int n) =
        .ok (some children[n].value) := by
      intro store hkept
      rw [Store.childAt_list (hlist store hkept) (by simpa using hn), List.getElem_map]
    rw [List.length_cons] at hlimit
    -- No answer has an index, so the next child is the sibling.
    have hmore := @ih _ limit (onTrack_next hn) hrest (by omega)
    rw [List.flatMap_cons]
    by_cases hgap : children[n] = .gap
    · rw [hgap] at hread ⊢
      refine Covers.congr _ ?_ hmore
      intro world hkept
      rw [visitChildren_passes walker (hread _ hkept)]
      rfl
    · have hnode : children[n].value ≠ .null := fun hnull =>
        hgap (hgaps _ (List.getElem_mem hn) hnull)
      have hhere := hchild n hn hgap limit (by omega)
      refine Covers.congr _ ?_ (Covers.bind (fun index =>
        walker.visitChildren limit lineage parent (walker.cursorAfter (.int n) index)) hhere hmore)
      intro world hkept
      exact visitChildren_child walker hnode (hread _ hkept)

/-- Bounds for the members of a list give one for all of them. -/
theorem exists_bound_of_forall_mem {α : Type} {P : α → Nat → Prop} {list : List α}
    (hbounds : ∀ a ∈ list, ∃ bound, ∀ limit, bound ≤ limit → P a limit) :
    ∃ bound, ∀ a ∈ list, ∀ limit, bound ≤ limit → P a limit := by
  induction list with
  | nil => exact ⟨0, by simp⟩
  | cons a rest ih =>
    obtain ⟨first, hfirst⟩ := hbounds a (by simp)
    obtain ⟨others, hothers⟩ := ih fun b hb => hbounds b (by simp [hb])
    refine ⟨max first others, ?_⟩
    intro b hb limit hlimit
    rcases List.mem_cons.mp hb with rfl | hb
    · exact hfirst limit (by omega)
    · exact hothers b hb limit (by omega)

theorem startOf_list {store : Store} {children : Value} {items : List Value}
    (hlist : store.cell? children = some (.list items)) :
    walker.startOf store children =
      .ok (.int (if walker.reverse then (items.length : Int) - 1 else 0)) := by
  unfold startOf
  split <;> simp [Store.lengthOf_list hlist, bind, Except.bind, pure, Except.pure]

/-- Visiting a tree that is kept reaches its nodes in pre-order, less what is
    below the nodes that pass and are answered with a skip. The induction
    follows the tree. -/
theorem tree_covers
    (hvisit : ∀ place lineage,
      walker.visit place lineage = callVisitor host .lineage visitor place lineage)
    {tree : Tree} (hstands : tree.StandsIn kept) :
    ∃ bound, ∀ limit, bound ≤ limit → tree ≠ .gap → ∀ path index parent lineage,
      (∀ spot ∈ tree.spotsUnless (fun _ => false) walker.reverse path index parent lineage,
        walker.Judges kept passes spot) →
      Covers host visitor kept passes answer
        (walker.visitOne (walker.visitChildren limit) lineage ⟨tree.value, index, parent⟩) .null
        (tree.spotsUnless (fun spot => passes spot.place && answer spot.path == .skip)
          walker.reverse path index parent lineage) := by
  induction hstands with
  | gap => exact ⟨0, fun _ _ hgap => (hgap rfl).elim⟩
  | @leaf value hleaf =>
    refine ⟨0, ?_⟩
    intro limit _ _ path index parent lineage hjudges
    exact visitOne_covers hvisit ⟨path, ⟨value, index, parent⟩, lineage⟩
      (hjudges _ (by simp [Tree.spotsUnless])) (Or.inl ⟨hleaf, rfl⟩)
  | @parent value children hlist hgaps _ ih =>
    -- Each child takes one off the limit, and the deepest of them needs `bound`.
    obtain ⟨bound, hbound⟩ := exists_bound_of_forall_mem ih
    refine ⟨bound + children.length + 1, ?_⟩
    intro limit hlimit _ path index parent lineage hjudges
    simp only [Tree.spotsUnless, Bool.false_eq_true, if_false] at hjudges
    refine visitOne_covers hvisit ⟨path, ⟨value, index, parent⟩, lineage⟩
      (hjudges _ (by simp)) (Or.inr ⟨_, fun store hkept =>
        ⟨Store.ne_null_of_list (hlist store hkept), startOf_list (hlist store hkept)⟩, ?_⟩)
    rw [spotsOfAll_eq_flatMap, ← ahead_start, List.length_map]
    refine visitChildren_covers bound hlist hgaps ?_ onTrack_start rfl ?_
    · intro n hn hgap less hless
      refine hbound children[n] (List.getElem_mem hn) less hless hgap _ _ _ _ ?_
      intro spot hspot
      exact hjudges spot (List.mem_cons_of_mem _ (mem_spotsOfAll_of_getElem hn hspot))
    · rw [length_ahead_start]
      omega

/-- What is called of the nodes that are reached is the visit order. -/
theorem called_eq_visitOrder (tree : Tree) (reverse : Bool) :
    called passes answer
        (tree.spotsUnless (fun spot => passes spot.place && answer spot.path == .skip) reverse []
          .null .null []) =
      tree.visitOrder reverse passes answer := by
  rw [called, Tree.spotsUnless_eq_filter]
  rfl

/-- What a walk comes to once the visitor was called on some spots: it finishes,
    or it was ended at one of them. At a child whose label cannot be written it
    fails to tell so. -/
inductive EndsAfter (answer : List Nat → Action) (spots : List Spot) (final : World σ) :
    Outcome σ → Prop where
  | finished (hgoes : ∀ spot ∈ spots, answer spot.path ≠ .exit) :
      EndsAfter answer spots final (.ok .finished final)
  | exited {spot : Spot} (hspot : spot ∈ spots) (hanswer : answer spot.path = .exit)
      (hlabel : spot.place.parent = .null ∨ final.store.CanLabel spot.place.node) :
      EndsAfter answer spots final (.ok .exited final)
  | untold {spot : Spot} {fault : Fault} (hspot : spot ∈ spots)
      (hanswer : answer spot.path = .exit) (hparent : spot.place.parent ≠ .null)
      (hhead : final.store.unwritable? (final.store.head spot.place.node) = some fault) :
      EndsAfter answer spots final (.error fault final)

/-- A walk over a tree that is kept calls the visitor in the visit order. -/
theorem walk_tours
    (hvisit : ∀ place lineage,
      walker.visit place lineage = callVisitor host .lineage visitor place lineage)
    {tree : Tree} (hnode : tree ≠ .gap) (hstands : tree.StandsIn kept)
    (hjudges : ∀ spot ∈ tree.spots walker.reverse, walker.Judges kept passes spot)
    {world : World σ} (hkept : kept world.store) (hlabel : world.store.CanLabel tree.value)
    {last : Store × σ}
    (hanswers : Answers host visitor kept answer (world.store, world.user)
      (tree.visitOrder walker.reverse passes answer) last) :
    ∃ fuel outcome final, walker.walk fuel tree.value world = some outcome ∧
      Toured world (tree.visitOrder walker.reverse passes answer) last final ∧
      EndsAfter answer (tree.visitOrder walker.reverse passes answer) final outcome := by
  obtain ⟨limit, hcovers⟩ := @tree_covers σ host visitor kept passes answer walker hvisit _ hstands
  -- The recursion is followed to its end, and the loop comes to the same.
  obtain ⟨message, hannounce⟩ := walker.announce_tells hlabel
  have hroot := hcovers limit (Nat.le_refl limit) hnode [] .null .null [] hjudges
    (world.told message) last hkept
  rw [called_eq_visitOrder] at hroot
  obtain ⟨final, htour, hresult⟩ := hroot hanswers
  have hwhole : Toured world (tree.visitOrder walker.reverse passes answer) last final :=
    ((Toured.refl world).told message).trans htour
  split at hresult
  · obtain ⟨spot, hspot, hanswer, hresult⟩ := hresult
    obtain ⟨fuel, outcome, hwalk, htells⟩ :=
      walk_tells hannounce (walker.walkRecursively_halts hresult) (by simp)
    cases htells with
    | exited _ _ close hexited =>
      exact ⟨fuel, _, final.told close, hwalk, hwhole.told close, .exited hspot hanswer hexited⟩
    | untold _ _ hparent hhead =>
      exact ⟨fuel, _, final, hwalk, hwhole, .untold hspot hanswer hparent hhead⟩
  · next hgoes =>
    obtain ⟨fuel, close, hwalk⟩ :=
      walk_of_recursion hannounce (walker.walkRecursively_ok hresult)
    refine ⟨fuel, _, final.told close, hwalk, hwhole.told close, .finished ?_⟩
    intro spot hspot hanswer
    exact hgoes (List.any_eq_true.mpr ⟨spot, hspot, beq_iff_eq.mpr hanswer⟩)

end Whole

end Walker

/-- A world that differs from another in messages only. -/
structure World.ToldMore (world later : World σ) : Prop where
  store : later.store = world.store
  user : later.user = world.user
  calls : callsIn later.journal = callsIn world.journal

theorem World.ToldMore.trans {world middle later : World σ} (hfirst : world.ToldMore middle)
    (hsecond : middle.ToldMore later) : world.ToldMore later where
  store := hsecond.store.trans hfirst.store
  user := hsecond.user.trans hfirst.user
  calls := hsecond.calls.trans hfirst.calls

/-- Converting several tests one after the other does no more than each. -/
theorem Check.convertAll_toldMore {convert : Value → Act σ Check}
    (hconvert : ∀ test world check later, convert test world = .ok check later →
      world.ToldMore later)
    (tests : List Value) : ∀ world checks later,
      Check.convertAll convert tests world = .ok checks later → world.ToldMore later := by
  induction tests with
  | nil =>
    intro world checks later hall
    cases hall
    exact ⟨rfl, rfl, rfl⟩
  | cons test rest ih =>
    intro world checks later hall
    rcases hfirst : convert test world with ⟨check, middle⟩ | ⟨fault, middle⟩
    · rcases hrest : Check.convertAll convert rest middle with ⟨others, final⟩ | ⟨fault, final⟩
      · simp only [Check.convertAll, bind, EStateM.bind, hfirst, hrest] at hall
        cases hall
        exact (hconvert test world check middle hfirst).trans (ih middle others later hrest)
      · simp only [Check.convertAll, bind, EStateM.bind, hfirst, hrest] at hall
        cases hall
    · simp only [Check.convertAll, bind, EStateM.bind, hfirst] at hall
      cases hall

/-- Converting a test changes nothing but for messages. -/
theorem Check.convertAt_toldMore (fuel : Nat) : ∀ (test : Value) (world : World σ) check later,
    Check.convertAt fuel test world = .ok check later → world.ToldMore later := by
  induction fuel with
  | zero =>
    intro test world check later hconvert
    cases hconvert
  | succ fuel ih =>
    intro test world check later hconvert
    rcases hread : Check.read world.store test with plain | tests | _
    · simp only [Check.convertAt, Act.store, bind, EStateM.bind, hread] at hconvert
      cases hconvert
      exact ⟨rfl, rfl, rfl⟩
    · rcases hall : Check.convertAll (Check.convertAt fuel) tests world with
        ⟨checks, final⟩ | ⟨fault, final⟩
      · simp only [Check.convertAt, Act.store, bind, EStateM.bind, hread, hall] at hconvert
        cases hconvert
        exact Check.convertAll_toldMore ih tests world checks later hall
      · simp only [Check.convertAt, Act.store, bind, EStateM.bind, hread, hall] at hconvert
        cases hconvert
    · rcases hwrite : world.store.write test with fault | shown
      · simp only [Check.convertAt, Act.store, Act.ofExcept, bind, EStateM.bind, hread, hwrite]
          at hconvert
        cases hconvert
      · simp only [Check.convertAt, Act.store, Act.say, Act.record, Act.ofExcept, bind,
          EStateM.bind, hread, hwrite] at hconvert
        cases hconvert
        exact ⟨rfl, rfl, by simp [callsIn]⟩

theorem Check.convertAt_toured (fuel : Nat) (test : Value) (world : World σ) (check : Check)
    (later : World σ) (hconvert : Check.convertAt fuel test world = .ok check later) :
    Toured world [] (world.store, world.user) later := by
  have htold := Check.convertAt_toldMore fuel test world check later hconvert
  refine ⟨by rw [htold.store, htold.user], ?_⟩
  rw [← visitsOf_callsIn, htold.calls, visitsOf_callsIn]
  rfl

/-- For every tree of lists whose root can be labelled, pure test and visitor that
    leaves the tree alone and answers by position, a walk calls the visitor on
    the nodes of the visit order, in that order, with the nodes along their
    paths for ancestors, and on no others; it ends, and it does so by an exit if
    one was answered. Only if that was at a child whose label cannot be written
    does it fail once all calls are made. -/
theorem visits_in_preorder (host : Host σ) (test visitor reverse : Value) (annotate : Bool)
    (world : World σ) (hcallable : world.store.isCallable visitor = true)
    {check : Check} {converted : World σ}
    (hconvert : Check.convert test world = .ok check converted)
    (kept : Store → Prop) (hkept : kept world.store)
    (tree : Tree) (hnode : tree ≠ .gap) (hstands : tree.StandsIn kept)
    (hlabel : world.store.CanLabel tree.value)
    (passes : Place → Bool)
    (hpure : ∀ spot ∈ tree.spots (world.store.isTrue reverse),
      ∀ later : World σ, kept later.store →
        check.test host spot.place later = .ok (passes spot.place) later)
    (answer : List Nat → Action) (last : Store × σ)
    (hanswers : Answers host visitor kept answer (world.store, world.user)
      (tree.visitOrder (world.store.isTrue reverse) passes answer) last) :
    ∃ fuel outcome final,
      (∀ more, visit host .lineage ⟨test, visitor, reverse⟩ annotate (fuel + more) tree.value
        world = some outcome) ∧
      visitsOf final.journal =
        ((tree.visitOrder (world.store.isTrue reverse) passes answer).map
          fun spot => (spot.place, spot.lineage)).reverse ++ visitsOf world.journal ∧
      (∀ spot ∈ tree.visitOrder (world.store.isTrue reverse) passes answer,
        (tree.at? spot.path).map Tree.value = some spot.place.node ∧
          spot.lineage = tree.chain spot.path) ∧
      (final.store, final.user) = last ∧
      Walker.EndsAfter answer (tree.visitOrder (world.store.isTrue reverse) passes answer) final
        outcome := by
  have hconverted : Toured world [] (world.store, world.user) converted :=
    Check.convertAt_toured _ test world check converted hconvert
  obtain ⟨hstore, huser⟩ := Prod.mk.inj hconverted.state
  let walker : Walker σ :=
    Request.walker ⟨test, visitor, world.store.isTrue reverse⟩ host .lineage annotate check
  obtain ⟨fuel, outcome, final, hwalk, htour, hends⟩ :=
    @Walker.walk_tours σ host visitor kept passes answer walker (fun _ _ => rfl) tree hnode
      hstands (fun spot hspot => hpure spot hspot) converted (hstore.symm ▸ hkept)
      (hstore.symm ▸ hlabel) last (by rw [hstore, huser]; exact hanswers)
  have hwhole := hconverted.trans htour
  refine ⟨fuel, outcome, final, ?_, hwhole.visits, ?_, hwhole.state, hends⟩
  · intro more
    have hresolve := Arguments.resolve_of_isCallable hcallable test reverse
    simp only [visit, hresolve, hconvert]
    exact Walker.walk_mono hwalk
  · intro spot hspot
    have hmem : spot ∈ tree.spots (world.store.isTrue reverse) :=
      (List.mem_filter.mp (List.mem_filter.mp (List.mem_of_mem_take hspot)).1).1
    exact Tree.at?_of_mem_spotsUnless tree rfl hmem

/-- A root with a parent, a gap and a leaf for its children. -/
def grove : Store :=
  ⟨#[.mapping [("children", .cell ⟨1⟩)], .list [.cell ⟨2⟩, .null, .cell ⟨3⟩],
    .mapping [("children", .cell ⟨4⟩)], .mapping [], .list [.cell ⟨3⟩]]⟩

/-- The tree of that store. -/
def groveTree : Tree :=
  .node (.cell ⟨0⟩) [.node (.cell ⟨2⟩) [.node (.cell ⟨3⟩) []], .gap, .node (.cell ⟨3⟩) []]

theorem grove_stands : groveTree.StandsIn (· = grove) := by
  have hleaf : Tree.StandsIn (· = grove) (.node (.cell ⟨3⟩) []) := by
    refine .leaf ?_
    rintro store rfl
    rfl
  have hinner : Tree.StandsIn (· = grove) (.node (.cell ⟨2⟩) [.node (.cell ⟨3⟩) []]) := by
    refine .parent ?_ (by simp [Tree.value]) (by simpa using hleaf)
    rintro store rfl
    rfl
  refine .parent ?_ (by simp [Tree.value]) ?_
  · rintro store rfl
    rfl
  · simpa using ⟨hinner, .gap, hleaf⟩

/-- The first function counts its calls, leaves out what is below the first
    child and ends the walk elsewhere; the others accept all but the root. -/
def groveHost : Host Nat
  | 0, .inLineage node _, (store, calls) =>
    .ok (.action (if node = .cell ⟨2⟩ then .skip else .exit)) (store, calls + 1)
  | _, .atPlace place, state => .ok (.bool (place.parent ≠ .null)) state
  | _, _, state => .ok .null state

/-- In that tree the visitor is called on the first and the last child. -/
theorem grove_visits : ∃ fuel outcome final,
    (∀ more, visit groveHost .lineage ⟨.function 1, .function 0, .null⟩ false (fuel + more)
      (.cell ⟨0⟩) ⟨grove, [], 0⟩ = some outcome) ∧
    visitsOf final.journal =
      [(⟨.cell ⟨3⟩, .int 2, .cell ⟨0⟩⟩, [.cell ⟨0⟩]),
        (⟨.cell ⟨2⟩, .int 0, .cell ⟨0⟩⟩, [.cell ⟨0⟩])] ∧
    final.user = 2 ∧ outcome = .ok .exited final := by
  let passes : Place → Bool := fun place => place.parent ≠ .null
  let answer : List Nat → Action := fun path => if path = [0] then .skip else .exit
  have horder : groveTree.visitOrder false passes answer =
      [⟨[0], ⟨.cell ⟨2⟩, .int 0, .cell ⟨0⟩⟩, [.cell ⟨0⟩]⟩,
        ⟨[2], ⟨.cell ⟨3⟩, .int 2, .cell ⟨0⟩⟩, [.cell ⟨0⟩]⟩] := by
    rfl
  have hnode : groveTree ≠ .gap := by simp [groveTree]
  have hanswers : Answers groveHost (.function 0) (· = grove) answer (grove, 0)
      (groveTree.visitOrder false passes answer) (grove, 2) := by
    rw [horder]
    refine @Answers.cons _ _ _ _ _ _ (grove, 1) _ _ _ _ (fun _ => rfl) rfl nofun rfl ?_
    exact @Answers.cons _ _ _ _ _ _ (grove, 2) _ _ _ _ (fun _ => rfl) rfl nofun rfl (.nil _)
  have hpure : ∀ spot ∈ groveTree.spots false, ∀ later : World Nat, later.store = grove →
      (Check.predicate 1).test groveHost spot.place later = .ok (passes spot.place) later := by
    intro spot _ later _
    rfl
  obtain ⟨fuel, outcome, final, hvisit, hvisits, _, hstate, hends⟩ :=
    @visits_in_preorder Nat groveHost (.function 1) (.function 0) .null false ⟨grove, [], 0⟩ rfl
      (.predicate 1) ⟨grove, [], 0⟩ rfl (· = grove) rfl groveTree hnode grove_stands rfl passes
      hpure answer (grove, 2) hanswers
  obtain ⟨hstore, huser⟩ := Prod.mk.inj hstate
  change Walker.EndsAfter answer (groveTree.visitOrder false passes answer) final outcome at hends
  rw [horder] at hends
  refine ⟨fuel, outcome, final, hvisit, hvisits, huser, ?_⟩
  cases hends with
  | finished hgoes => exact (hgoes _ (List.mem_cons_of_mem _ List.mem_cons_self) rfl).elim
  | exited hspot hanswer _ => rfl
  | untold hspot hanswer _ hhead =>
    rw [hstore] at hhead
    simp only [List.mem_cons, List.not_mem_nil, or_false] at hspot
    rcases hspot with rfl | rfl <;> cases hhead

/-- A leaf whose type has a digit too many to be written is a finite tree that
    is in the visit order, but no visitor is ever called on it. -/
theorem numberLeaf_never_visited :
    (Tree.node (.cell ⟨0⟩) []).StandsIn (· = Store.numberLeaf (10 ^ Numeral.maxDigits)) ∧
    (Tree.node (.cell ⟨0⟩) []).visitOrder false (fun _ => true) (fun _ => .proceed) =
      [⟨[], { node := .cell ⟨0⟩ }, []⟩] ∧
    ∀ fuel, visit (fun _ _ state => .ok .null state) .lineage ⟨.null, .function 0, .null⟩ false fuel
        (.cell ⟨0⟩) ⟨Store.numberLeaf (10 ^ Numeral.maxDigits), [], ()⟩ =
      some (.error (.of .unwritableInteger)
        ⟨Store.numberLeaf (10 ^ Numeral.maxDigits), [], ()⟩) := by
  refine ⟨.leaf ?_, rfl, ?_⟩
  · rintro store rfl
    rfl
  · exact visit_fails_untold _ _ _ rfl rfl (Store.unwritable?_numberLeaf (Nat.le_refl _))

end Lineage
