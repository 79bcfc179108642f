import Lineage.Proofs.Walk.Consultation
import Lineage.Proofs.Walk.NoFailure
import Lineage.Proofs.Walk.Preorder
import Mathlib.Data.List.Flatten

namespace Lineage

variable {σ : Type}

/-- An index with truth values read as the numbers that they count as. -/
def Value.numbered (index : Value) : Value :=
  match index.position? with
  | some n => .int n
  | none => index

/-- A place with a number for its index. -/
def Place.numbered (place : Place) : Place :=
  { place with index := place.index.numbered }

/-- The places that were put to the check, the newest first. -/
def offeredOf (journal : List Entry) : List Place :=
  journal.filterMap fun
    | .offered place => some place
    | _ => none

/-- Messages offer nothing. -/
theorem offeredOf_callsIn (journal : List Entry) :
    offeredOf (callsIn journal) = offeredOf journal := by
  induction journal with
  | nil => rfl
  | cons entry rest ih =>
    cases entry with
    | said severity message => simpa [callsIn, offeredOf] using ih
    | offered place => simpa [callsIn, offeredOf] using ih
    | visited place lineage => simpa [callsIn, offeredOf] using ih

/-- At a cursor an index asks for nothing that the walk has passed: if both are
    whole numbers, it comes after the cursor in the direction of the walk. An
    index that asks for something else may make the walk fail. -/
structure Value.LeadsOn (reverse : Bool) (mayFail : Prop) (cursor index : Value) : Prop where
  ahead : ∀ n place, cursor.position? = some n → index.position? = some place →
    if reverse then place < n else n < place
  resumes : index.IsResume ∨ mayFail

theorem Value.leadsOn_null {reverse : Bool} {mayFail : Prop} {cursor : Value} :
    Value.LeadsOn reverse mayFail cursor .null where
  ahead := by
    intro n place _ hplace
    cases hplace
  resumes := .inl (.inl rfl)

namespace Walker

/-- At a place, a node that can be labelled, a check that changes nothing, and a
    visitor that keeps what is to be kept and whose answer leads on. A label or an
    answer that cannot be written may make the walk fail. -/
structure Onward (walker : Walker σ) (kept : Store → σ → Prop) (mayFail : Prop) (place : Place)
    (lineage : List Value) : Prop where
  label : ∀ store user, kept store user → store.CanLabel place.node ∨ mayFail
  check : ∀ world, kept world.store world.user →
    (∃ verdict, walker.check place world = .ok verdict world) ∨
      mayFail ∧ ∃ fault, walker.check place world = .error fault world
  visit : ∀ world, kept world.store world.user → ∃ store user, kept store user ∧
    ((∃ answer, walker.visit place lineage world = .ok answer ⟨store, world.journal, user⟩ ∧
        Value.LeadsOn walker.reverse mayFail place.index
          ((Directive.read store answer).getD {}).index ∧ (store.Settles answer ∨ mayFail)) ∨
      mayFail ∧ ∃ fault,
        walker.visit place lineage world = .error fault ⟨store, world.journal, user⟩)

/-- Some spots were put to the check between two worlds, in this order. -/
def Offered (world : World σ) (spots : List Spot) (final : World σ) : Prop :=
  (offeredOf final.journal).map Place.numbered =
    (spots.map Spot.place).reverse ++ (offeredOf world.journal).map Place.numbered

/-- A part of a recursive walk that comes to an end and puts to the check none
    but some spots, in their order and each once. If the walk goes on after it,
    the part has a good result and what is to be kept is kept. If the walk exits
    at a node, it can say so. -/
def Offers {α : Type} (kept : Store → σ → Prop) (mayFail : Prop) (good : α → Prop)
    (part : Visiting σ α) (spots : List Spot) : Prop :=
  ∀ world, kept world.store world.user → ∃ reached final, reached.Sublist spots ∧ Offered world reached final ∧
    ((∃ a, part world = .ok a final ∧ good a ∧ kept final.store final.user) ∨
      (∃ place, part world = .error (.exited place) final ∧
        (final.store.CanLabel place.node ∨ mayFail)) ∨
      mayFail ∧ ∃ fault, part world = .error (.failed fault) final)

section Composition

variable {α β : Type} {kept : Store → σ → Prop} {mayFail : Prop} {good : α → Prop} {fine : β → Prop}
  {world middle final : World σ} {first second : List Spot}

theorem Offered.of_callsIn (hcalls : callsIn final.journal = callsIn world.journal) :
    Offered world [] final := by
  rw [Offered, ← offeredOf_callsIn final.journal, hcalls, offeredOf_callsIn]
  rfl

theorem Offered.trans (hfirst : Offered world first middle)
    (hsecond : Offered middle second final) : Offered world (first ++ second) final := by
  unfold Offered at *
  rw [hsecond, hfirst, List.map_append, List.reverse_append, List.append_assoc]

/-- A part that does nothing, or fails, puts nothing to the check. -/
theorem Offers.idle {part : Visiting σ α}
    (hpart : ∀ world, kept world.store world.user → (∃ a, part world = .ok a world ∧ good a) ∨
      mayFail ∧ ∃ fault, part world = .error (.failed fault) world) :
    Offers kept mayFail good part [] := by
  intro world hkept
  refine ⟨[], world, List.Sublist.refl _, .of_callsIn rfl, ?_⟩
  rcases hpart world hkept with ⟨a, hdone, hgood⟩ | hfails
  · exact .inl ⟨a, hdone, hgood, hkept⟩
  · exact .inr (.inr hfails)

theorem Offers.bind {part : Visiting σ α} {next : α → Visiting σ β}
    (hpart : Offers kept mayFail good part first)
    (hnext : ∀ a, good a → Offers kept mayFail fine (next a) second) :
    Offers kept mayFail fine (part >>= next) (first ++ second) := by
  intro world hkept
  change ∃ reached final, _ ∧ _ ∧ ((∃ b, EStateM.bind part next world = _ ∧ _) ∨
    (∃ place, EStateM.bind part next world = _ ∧ _) ∨
      _ ∧ ∃ fault, EStateM.bind part next world = _)
  obtain ⟨reached, middle, hreached, hoffered, hended⟩ := hpart world hkept
  have hshorter : reached.Sublist (first ++ second) :=
    hreached.trans (List.sublist_append_left first second)
  rcases hended with ⟨a, ha, hgood, hmiddle⟩ | ⟨place, hexits, hlabel⟩ | ⟨hmay, fault, hfails⟩
  · obtain ⟨others, final, hothers, hmore, hlast⟩ := hnext a hgood middle hmiddle
    refine ⟨reached ++ others, final, hreached.append hothers, hoffered.trans hmore, ?_⟩
    simpa only [EStateM.bind, ha] using hlast
  · refine ⟨reached, middle, hshorter, hoffered, .inr (.inl ⟨place, ?_, hlabel⟩)⟩
    simp only [EStateM.bind, hexits]
  · refine ⟨reached, middle, hshorter, hoffered, .inr (.inr ⟨hmay, fault, ?_⟩)⟩
    simp only [EStateM.bind, hfails]

theorem Offers.widen {part : Visiting σ α} (hpart : Offers kept mayFail good part first)
    (hmore : first.Sublist second) : Offers kept mayFail good part second := by
  intro world hkept
  obtain ⟨reached, final, hreached, hrest⟩ := hpart world hkept
  exact ⟨reached, final, hreached.trans hmore, hrest⟩

theorem Offers.congr {part : Visiting σ α} (other : Visiting σ α)
    (hsame : ∀ world, kept world.store world.user → part world = other world)
    (hother : Offers kept mayFail good other first) : Offers kept mayFail good part first := by
  intro world hkept
  rw [hsame world hkept]
  exact hother world hkept

end Composition

section Node

variable {walker : Walker σ} {kept : Store → σ → Prop} {mayFail : Prop} {place : Place} {spot : Spot}

/-- Dealing with a node puts it to the check, whatever comes of it. -/
theorem Onward.one (honward : walker.Onward kept mayFail place spot.lineage)
    (hplace : place.numbered = spot.place) {world : World σ} (hkept : kept world.store world.user) :
    ∃ final, Offered world [spot] final ∧
      ((∃ directive, walker.one place spot.lineage world = .ok directive final ∧
          Value.LeadsOn walker.reverse mayFail place.index directive.index ∧ kept final.store final.user) ∨
        mayFail ∧ ∃ fault, walker.one place spot.lineage world = .error fault final) := by
  let offered : World σ := { world with journal := .offered place :: world.journal }
  have hoffered : ∀ final : World σ,
      offeredOf final.journal = place :: offeredOf world.journal → Offered world [spot] final := by
    intro final hfinal
    rw [Offered, hfinal, List.map_cons, hplace]
    rfl
  rcases honward.check offered hkept with ⟨verdict, hcheck⟩ | ⟨hmay, fault, hcheck⟩
  · cases verdict with
    | false =>
      refine ⟨offered, hoffered _ rfl, .inl ⟨{}, ?_, Value.leadsOn_null, hkept⟩⟩
      exact walker.one_of_consult (walker.consult_rejected hcheck)
    | true =>
      let visited : World σ :=
        { offered with journal := .visited place spot.lineage :: offered.journal }
      obtain ⟨store, user, hstore, ⟨answer, hvisit, hleads, hsettles⟩ | ⟨hmay, fault, hvisit⟩⟩ :=
        honward.visit visited hkept
      · obtain ⟨journal, hcalls, hheard⟩ := ofAnswer_heard answer ⟨store, visited.journal, user⟩
        have hjournal : offeredOf journal = place :: offeredOf world.journal := by
          rw [← offeredOf_callsIn, hcalls, offeredOf_callsIn]
          rfl
        refine ⟨⟨store, journal, user⟩, hoffered _ hjournal, ?_⟩
        rcases heard_cases store answer with
          ⟨directive, hdirective, hread, _⟩ | ⟨fault, hfault, hunsettled⟩
        · rw [hread] at hleads
          rw [hdirective] at hheard
          exact .inl ⟨directive,
            walker.one_of_consult ((walker.consult_called hcheck hvisit).trans hheard), hleads, hstore⟩
        · rw [hfault] at hheard
          exact .inr ⟨hsettles.resolve_left hunsettled, _,
            (Raises.answer hcheck hvisit hheard).one_fails⟩
      · exact ⟨_, hoffered _ rfl, .inr ⟨hmay, _, (Raises.visit hcheck hvisit).one_fails⟩⟩
  · exact ⟨offered, hoffered _ rfl, .inr ⟨hmay, _, (Raises.check hcheck).one_fails⟩⟩

/-- Visiting a node offers it and then what visiting its children offers. -/
theorem visitOne_offers (honward : walker.Onward kept mayFail place spot.lineage)
    (hplace : place.numbered = spot.place)
    {loop : List Value → Value → Value → Visiting σ Unit} {below : List Spot}
    (hbelow : (∀ store user, kept store user → store.children place.node = .null) ∨
      ∃ cursor, (∀ store user, kept store user →
          walker.startOf store (store.children place.node) = .ok cursor) ∧
        Offers kept mayFail (fun _ => True)
          (loop (place.node :: spot.lineage) place.node cursor) below) :
    Offers kept mayFail (Value.LeadsOn walker.reverse mayFail place.index)
      (walker.visitOne loop spot.lineage place) (spot :: below) := by
  intro world hkept
  have honly : [spot].Sublist (spot :: below) := (List.nil_sublist below).cons_cons spot
  obtain ⟨middle, hoffered, ⟨directive, hone, hleads, hmiddle⟩ | ⟨hmay, fault, hone⟩⟩ :=
    honward.one hplace hkept
  · by_cases hexit : directive.action = .action .exit
    · exact ⟨[spot], middle, honly, hoffered,
        .inr (.inl ⟨place, visitOne_exits walker _ _ _ hone hexit, honward.label _ _ hmiddle⟩)⟩
    · by_cases hstay :
        middle.store.children place.node = .null ∨ directive.action = .action .skip
      · have hstays := visitOne_stays walker loop _ _ hone hexit hstay
        exact ⟨[spot], middle, honly, hoffered, .inl ⟨_, hstays, hleads, hmiddle⟩⟩
      · rcases hbelow with hleaf | ⟨cursor, hstart, hloop⟩
        · exact (hstay (.inl (hleaf _ _ hmiddle))).elim
        · rw [visitOne_descends walker loop _ _ hone hexit hstay (hstart _ _ hmiddle)]
          have hall : Offers kept mayFail (Value.LeadsOn walker.reverse mayFail place.index)
              (loop (place.node :: spot.lineage) place.node cursor >>= fun _ =>
                pure directive.index) (below ++ []) :=
            hloop.bind fun _ _ => .idle fun _ _ => .inl ⟨_, rfl, hleads⟩
          obtain ⟨reached, final, hreached, hmore, hended⟩ := hall middle hmiddle
          rw [List.append_nil] at hreached
          exact ⟨spot :: reached, final, hreached.cons_cons spot, hoffered.trans hmore, hended⟩
  · exact ⟨[spot], middle, honly, hoffered,
      .inr (.inr ⟨hmay, fault, visitOne_fails walker _ _ _ hone⟩)⟩

end Node

section Children

variable {walker : Walker σ} {kept : Store → σ → Prop} {mayFail : Prop} {children : List Tree}
  {parent : Value} {lineage : List Value} {path : List Nat}

/-- Past a child there is no more ahead than from its next sibling on. -/
theorem ahead_suffix {reverse : Bool} {n : Nat} {place : Int}
    (hplace : if reverse then place < n else n < place) :
    ahead reverse children place <:+ ahead reverse children (n + if reverse then -1 else 1) := by
  cases reverse with
  | false =>
    simp only [Bool.false_eq_true, if_false] at hplace ⊢
    have hdrop : children.zipIdx.drop place.toNat =
        (children.zipIdx.drop (n + 1)).drop (place.toNat - (n + 1)) := by
      rw [List.drop_drop]
      congr 1
      omega
    have hnext : ((n : Int) + 1).toNat = n + 1 := by omega
    simp only [ahead, Bool.false_eq_true, if_false, hnext, hdrop]
    exact List.drop_suffix _ _
  | true =>
    simp only [if_true] at hplace ⊢
    have hback : ((n : Int) + -1 + 1).toNat = n := by omega
    simp only [ahead, if_true, hback]
    rw [List.reverse_suffix]
    exact List.take_prefix_take_left (by omega)

/-- The nodes of the children that a walk has ahead at a cursor. -/
def spotsAhead (reverse : Bool) (children : List Tree) (path : List Nat) (parent : Value)
    (lineage : List Value) (cursor : Int) : List Spot :=
  (ahead reverse children cursor).flatMap fun pair =>
    pair.1.spotsUnless (fun _ => false) reverse (pair.2 :: path) (.int pair.2) parent lineage

theorem spotsAhead_cons {reverse : Bool} {n : Nat} (hn : n < children.length) :
    spotsAhead reverse children path parent lineage n =
      children[n].spotsUnless (fun _ => false) reverse (n :: path) (.int n) parent lineage ++
        spotsAhead reverse children path parent lineage (n + if reverse then -1 else 1) := by
  rw [spotsAhead, ahead_cons hn, List.flatMap_cons]
  rfl

theorem spotsAhead_start {reverse : Bool} :
    spotsAhead reverse children path parent lineage
        (if reverse then (children.length : Int) - 1 else 0) =
      Tree.spotsOfAll (fun _ => false) reverse path parent lineage 0 children := by
  rw [spotsAhead, ahead_start, spotsOfAll_eq_flatMap]

/-- After a child, whatever index was asked for, the cursor has no more ahead
    than the next sibling, or it is no whole number and the walk may fail. -/
theorem cursorAfter_ahead (children : List Tree) {cursor index : Value} {n : Nat}
    (hcursor : cursor.position? = some (n : Int))
    (hindex : Value.LeadsOn walker.reverse mayFail cursor index) :
    ((walker.cursorAfter cursor index).position? = none ∧ mayFail) ∨
      ∃ place, (walker.cursorAfter cursor index).position? = some place ∧
        ahead walker.reverse children place <:+
          ahead walker.reverse children (n + if walker.reverse then -1 else 1) := by
  by_cases hnull : index = .null
  · have hmoved : walker.cursorAfter cursor index = .int (n + walker.stride) := by
      simp only [cursorAfter, hnull, if_true, Value.moved, hcursor]
    rw [hmoved]
    exact .inr ⟨n + walker.stride, rfl, List.suffix_refl _⟩
  · have hindexed : walker.cursorAfter cursor index = index := if_neg hnull
    rw [hindexed]
    rcases hplace : index.position? with _ | place
    · refine .inl ⟨rfl, ?_⟩
      simpa [Value.IsResume, hnull, hplace] using hindex.resumes
    · exact .inr ⟨place, rfl, ahead_suffix (hindex.ahead n place hcursor hplace)⟩

/-- A cursor that is no whole number leads to no child. -/
theorem visitChildren_idle {cursor : Value} (hcursor : cursor.position? = none) (hmay : mayFail)
    (hlist : ∀ store user, kept store user →
      store.cell? (store.children parent) = some (.list (children.map Tree.value)))
    (limit : Nat) :
    Offers kept mayFail (fun _ => True)
      (walker.visitChildren (limit + 1) lineage parent cursor) [] := by
  apply Offers.idle
  intro world hkept
  rcases hchild : world.store.childAt (world.store.children parent) cursor with fault | _ | child
  · exact .inr ⟨hmay, fault, visitChildren_fails walker hchild⟩
  · exact .inl ⟨(), visitChildren_ends walker hchild, trivial⟩
  · obtain ⟨n, hplace, _⟩ := Store.inside_of_childAt_list (hlist _ _ hkept) hchild
    cases hcursor.symm.trans hplace

/-- From any cursor on, the children of a node offer no more than what is ahead,
    if each of them offers no more than its nodes wherever the recursion has
    some depth left. The limit goes down with each child, and with it what is
    ahead. -/
theorem visitChildren_offers (bound : Nat)
    (hlist : ∀ store user, kept store user →
      store.cell? (store.children parent) = some (.list (children.map Tree.value)))
    (hgaps : ∀ child ∈ children, child.value = .null → child = .gap)
    (hchild : ∀ n (hn : n < children.length), children[n] ≠ .gap → ∀ limit, bound ≤ limit →
      ∀ cursor : Value, cursor.position? = some (n : Int) →
      Offers kept mayFail (Value.LeadsOn walker.reverse mayFail cursor)
        (walker.visitOne (walker.visitChildren limit) lineage ⟨children[n].value, cursor, parent⟩)
        (children[n].spotsUnless (fun _ => false) walker.reverse (n :: path) (.int n) parent
          lineage))
    {limit : Nat} {cursor : Value} {place : Int} (hplace : cursor.position? = some place)
    (hlimit : bound + (ahead walker.reverse children place).length < limit) :
    Offers kept mayFail (fun _ => True) (walker.visitChildren limit lineage parent cursor)
      (spotsAhead walker.reverse children path parent lineage place) := by
  induction limit generalizing cursor place with
  | zero => omega
  | succ limit ih =>
    by_cases hinside : 0 ≤ place ∧ place < children.length
    · obtain ⟨n, rfl⟩ := Int.eq_ofNat_of_zero_le hinside.1
      have hn : n < children.length := by omega
      have hread : ∀ store user, kept store user →
          store.childAt (store.children parent) cursor = .ok (some children[n].value) := by
        intro store user hkept
        rw [Store.childAt_of_position (hlist store user hkept) hplace,
          Store.childAt_list (hlist store user hkept) (by simpa using hn), List.getElem_map]
      rw [ahead_cons hn, List.length_cons] at hlimit
      rw [spotsAhead_cons hn]
      -- Wherever the walk goes on, it has no more ahead than at the next sibling.
      have hmore : ∀ index, Value.LeadsOn walker.reverse mayFail cursor index →
          Offers kept mayFail (fun _ => True)
            (walker.visitChildren limit lineage parent (walker.cursorAfter cursor index))
            (spotsAhead walker.reverse children path parent lineage
              (n + if walker.reverse then -1 else 1)) := by
        intro index hindex
        rcases cursorAfter_ahead children hplace hindex with
          ⟨hnone, hmay⟩ | ⟨next, hnext, hsuffix⟩
        · obtain ⟨less, rfl⟩ : ∃ less, limit = less + 1 := ⟨limit - 1, by omega⟩
          exact (visitChildren_idle hnone hmay hlist less).widen (List.nil_sublist _)
        · have hshorter := hsuffix.length_le
          exact (ih hnext (by omega)).widen (hsuffix.sublist.flatMap _)
      by_cases hgap : children[n] = .gap
      · rw [hgap] at hread ⊢
        refine Offers.congr _ ?_ (hmore .null Value.leadsOn_null)
        intro world hkept
        exact visitChildren_passes walker (hread _ _ hkept)
      · have hnode : children[n].value ≠ .null := fun hnull =>
          hgap (hgaps _ (List.getElem_mem hn) hnull)
        refine Offers.congr _ ?_ ((hchild n hn hgap limit (by omega) cursor hplace).bind hmore)
        intro world hkept
        exact visitChildren_child walker hnode (hread _ _ hkept)
    · refine (Offers.idle ?_).widen (List.nil_sublist _)
      intro world hkept
      refine .inl ⟨(), visitChildren_ends walker ?_, trivial⟩
      rw [Store.childAt_of_position (hlist _ _ hkept) hplace]
      exact Store.childAt_list_outside (hlist _ _ hkept) (by simpa using hinside)

end Children

section Whole

variable {walker : Walker σ} {kept : Store → σ → Prop} {mayFail : Prop}

/-- Visiting a tree that is kept offers its nodes in pre-order, each once if at
    all. The induction follows the tree. -/
theorem tree_offers {tree : Tree} (hstands : tree.StandsIn fun store => ∃ user, kept store user) :
    ∃ bound, ∀ limit, bound ≤ limit → tree ≠ .gap → ∀ path (cursor : Value) parent lineage,
      (∀ spot ∈ tree.spotsUnless (fun _ => false) walker.reverse path cursor.numbered parent lineage,
        ∀ place : Place, place.numbered = spot.place →
          walker.Onward kept mayFail place spot.lineage) →
      Offers kept mayFail (Value.LeadsOn walker.reverse mayFail cursor)
        (walker.visitOne (walker.visitChildren limit) lineage ⟨tree.value, cursor, parent⟩)
        (tree.spotsUnless (fun _ => false) walker.reverse path cursor.numbered parent lineage) := by
  induction hstands with
  | gap => exact ⟨0, fun _ _ hgap => (hgap rfl).elim⟩
  | @leaf value hleaf =>
    refine ⟨0, ?_⟩
    intro limit _ _ path cursor parent lineage honward
    let spot : Spot := ⟨path, ⟨value, cursor.numbered, parent⟩, lineage⟩
    have hspots : Tree.spotsUnless (fun _ => false) walker.reverse path cursor.numbered parent
        lineage (.node value []) = [spot] := by
      simp [Tree.spotsUnless, Tree.spotsOfAll, spot]
    rw [hspots] at honward ⊢
    have hhere : walker.Onward kept mayFail ⟨value, cursor, parent⟩ spot.lineage :=
      honward spot (by simp) ⟨value, cursor, parent⟩ rfl
    exact visitOne_offers hhere rfl (.inl fun store user hkept => hleaf store ⟨user, hkept⟩)
  | @parent value children hlist hgaps _ ih =>
    -- Each child takes one off the limit, and the deepest of them needs `bound`.
    obtain ⟨bound, hbound⟩ := exists_bound_of_forall_mem ih
    refine ⟨bound + children.length + 1, ?_⟩
    intro limit hlimit _ path cursor parent lineage honward
    let spot : Spot := ⟨path, ⟨value, cursor.numbered, parent⟩, lineage⟩
    simp only [Tree.spotsUnless, Bool.false_eq_true, if_false] at honward ⊢
    have hhere : walker.Onward kept mayFail ⟨value, cursor, parent⟩ spot.lineage :=
      honward spot (by simp [spot]) ⟨value, cursor, parent⟩ rfl
    have hitems : ∀ store user, kept store user →
        store.cell? (store.children value) = some (.list (children.map Tree.value)) :=
      fun store user hkept => hlist store ⟨user, hkept⟩
    refine visitOne_offers hhere rfl (.inr ⟨_, fun store user hkept =>
      startOf_list (hitems store user hkept), ?_⟩)
    rw [← spotsAhead_start, List.length_map]
    refine visitChildren_offers bound hitems hgaps ?_ rfl ?_
    · intro n hn hgap less hless inner hinner
      have hnumber : inner.numbered = .int n := by
        simp only [Value.numbered, hinner]
      rw [← hnumber]
      refine hbound children[n] (List.getElem_mem hn) less hless hgap _ inner _ _ ?_
      rw [hnumber]
      intro inside hinside
      exact honward inside (List.mem_cons_of_mem _ (mem_spotsOfAll_of_getElem hn hinside))
    · rw [length_ahead_start]
      omega

/-- A walk over a tree that is kept ends. It puts to the check some of the nodes,
    in pre-order. -/
theorem walk_offers {tree : Tree} (hnode : tree ≠ .gap)
    (hstands : tree.StandsIn fun store => ∃ user, kept store user)
    (honward : ∀ spot ∈ tree.spots walker.reverse, ∀ place : Place, place.numbered = spot.place →
      walker.Onward kept mayFail place spot.lineage)
    {world : World σ} (hkept : kept world.store world.user) :
    ∃ fuel outcome final reached, walker.walk fuel tree.value world = some outcome ∧
      ((∃ ending, outcome = .ok ending final) ∨ mayFail ∧ ∃ fault, outcome = .error fault final) ∧
      reached.Sublist (tree.spots walker.reverse) ∧ Offered world reached final := by
  obtain ⟨limit, hoffers⟩ := @tree_offers σ walker kept mayFail tree hstands
  -- The recursion is followed to its end, and the loop comes to the same.
  rcases walker.announce_cases tree.value world with
    ⟨fault, hhead, hannounce⟩ | ⟨message, _, hannounce⟩
  · refine ⟨0, _, world, [], walker.walk_announce_fails hannounce 0, .inr ⟨?_, fault, rfl⟩,
      List.nil_sublist _, .of_callsIn rfl⟩
    obtain ⟨lineage, hroot⟩ : ∃ lineage, walker.Onward kept mayFail { node := tree.value } lineage := by
      cases tree with
      | gap => exact (hnode rfl).elim
      | node value children => exact ⟨_, honward _ (List.mem_cons_self) { node := value } rfl⟩
    exact (hroot.label _ _ hkept).resolve_left (by simp [Store.CanLabel, hhead])
  obtain ⟨reached, later, hreached, hoffered, hended⟩ :=
    hoffers limit (Nat.le_refl limit) hnode [] .null .null [] honward (world.told message) hkept
  have hwhole : Offered world reached later :=
    (Offered.of_callsIn (callsIn_told world message)).trans hoffered
  have hclosed : ∀ close, Offered world reached (later.told close) := by
    intro close
    simpa using hwhole.trans (.of_callsIn (callsIn_told later close))
  rcases hended with ⟨index, hdone, _⟩ | ⟨place, hexits, hlabel⟩ | ⟨hmay, fault, hfails⟩
  · obtain ⟨fuel, close, hwalk⟩ :=
      walk_of_recursion hannounce (walker.walkRecursively_ok hdone)
    exact ⟨fuel, _, _, reached, hwalk, .inl ⟨_, rfl⟩, hreached, hclosed close⟩
  · obtain ⟨fuel, outcome, hwalk, htells⟩ :=
      walk_tells hannounce (walker.walkRecursively_halts hexits) (by simp)
    cases htells with
    | exited _ _ close =>
      exact ⟨fuel, _, _, reached, hwalk, .inl ⟨_, rfl⟩, hreached, hclosed close⟩
    | @untold _ _ fault _ hhead =>
      exact ⟨fuel, _, _, reached, hwalk,
        .inr ⟨hlabel.resolve_left (by simp [Store.CanLabel, hhead]), fault, rfl⟩, hreached, hwhole⟩
  · obtain ⟨fuel, outcome, hwalk, htells⟩ :=
      walk_tells hannounce (walker.walkRecursively_halts hfails) (by simp)
    cases htells with
    | failed => exact ⟨fuel, _, _, reached, hwalk, .inr ⟨hmay, fault, rfl⟩, hreached, hwhole⟩

end Whole

end Walker

/-- For every tree of lists, check that changes nothing and visitor that leaves
    the tree alone and asks for no index but one ahead of the child that it is
    called on, whatever its actions, the walk ends, without a failure unless
    the check, the visitor, an index that is no whole number, or a label or an
    answer that cannot be written makes it fail.
    What it puts to the check are nodes of the tree in pre-order, each at a
    position of its own. -/
theorem onward_visit_offers_each_once (host : Host σ) (manner : Manner) (arguments : Arguments)
    (annotate : Bool) (world : World σ) {request : Request}
    (hresolve : arguments.resolve world.store = .ok request)
    {check : Check} {converted : World σ}
    (hconvert : Check.convert request.test world = .ok check converted)
    (kept : Store → σ → Prop) (hkept : kept world.store world.user) (mayFail : Prop)
    (tree : Tree) (hnode : tree ≠ .gap)
    (hstands : tree.StandsIn fun store => ∃ user, kept store user)
    (honward : ∀ spot ∈ tree.spots request.reverse, ∀ place : Place, place.numbered = spot.place →
      (request.walker host manner annotate check).Onward kept mayFail place spot.lineage) :
    ∃ fuel outcome final, ∃ reached : List Spot,
      (∀ more, visit host manner arguments annotate (fuel + more) tree.value world =
        some outcome) ∧
      ((∃ ending, outcome = .ok ending final) ∨ mayFail ∧ ∃ fault, outcome = .error fault final) ∧
      reached.Sublist (tree.spots request.reverse) ∧
      (reached.map Spot.path).Nodup ∧
      (offeredOf final.journal).map Place.numbered =
        (reached.map Spot.place).reverse ++ (offeredOf world.journal).map Place.numbered := by
  have htold : world.ToldMore converted :=
    Check.convertAt_toldMore _ request.test world check converted hconvert
  let walker : Walker σ := request.walker host manner annotate check
  obtain ⟨fuel, outcome, final, reached, hwalk, hended, hreached, hoffered⟩ :=
    @Walker.walk_offers σ walker kept mayFail tree hnode hstands honward converted
      (by rw [htold.store, htold.user]; exact hkept)
  have hconverted : Walker.Offered world [] converted := .of_callsIn htold.calls
  refine ⟨fuel, outcome, final, reached, ?_, hended, hreached, ?_, hconverted.trans hoffered⟩
  · intro more
    simp only [visit, hresolve, hconvert]
    exact Walker.walk_mono hwalk
  · have hall : ((tree.spots request.reverse).map Spot.path).Nodup :=
      Tree.nodup_paths_spotsUnless tree [] .null .null []
    exact (hreached.map Spot.path).nodup hall

/-- The visitor leaps over children, over one more each time. -/
def leapingHost : Host Nat
  | _, .atPlace place, (store, leap) =>
    match place.index.position? with
    | some n => .ok (.int (n + leap)) (store, leap + 1)
    | none => .ok .null (store, leap)
  | _, _, state => .ok .null state

/-- A leap leads on, past the last child as well. -/
theorem leaping_onward {place : Place} (hlabel : grove.CanLabel place.node) (lineage : List Value) :
    (Request.walker ⟨.null, .function 0, false⟩ leapingHost .place false .anything).Onward
      (fun store leap => store = grove ∧ 0 < leap) False place lineage where
  label := fun store _ hkept => .inl (hkept.1 ▸ hlabel)
  check := fun world _ => .inl ⟨true, rfl⟩
  visit := by
    rintro ⟨store, journal, leap⟩ ⟨hstore, hleap⟩
    simp only [Request.walker, callVisitor, Act.call, leapingHost]
    rcases hplace : place.index.position? with _ | n
    · exact ⟨store, leap, ⟨hstore, hleap⟩,
        .inl ⟨.null, rfl, Value.leadsOn_null, .inl (Store.settles_of_read rfl)⟩⟩
    · refine ⟨store, leap + 1, ⟨hstore, by omega⟩, .inl ⟨.int (n + leap), rfl,
        ⟨?_, .inl (.inr rfl)⟩, .inl (Store.settles_of_read rfl)⟩⟩
      intro m next hm hnext
      cases hplace.symm.trans hm
      cases hnext
      simp only [Bool.false_eq_true, if_false] at hleap ⊢
      omega

/-- The walk that leaps over a gap ends without a failure, though the leaps after
    that lead past the end. -/
theorem leaping_visit_ends : ∃ fuel ending final, ∃ reached : List Spot,
    (∀ more, visit leapingHost .place ⟨.null, .function 0, .null⟩ false (fuel + more) (.cell ⟨0⟩)
      ⟨grove, [], 2⟩ = some (.ok ending final)) ∧
    reached.Sublist (groveTree.spots false) ∧ (reached.map Spot.path).Nodup ∧
    (offeredOf final.journal).map Place.numbered = (reached.map Spot.place).reverse := by
  have hnode : groveTree ≠ .gap := by simp [groveTree]
  have hstands : groveTree.StandsIn fun store => ∃ leap, store = grove ∧ 0 < leap := by
    apply grove_stands.mono
    rintro store ⟨_, hstore, _⟩
    exact hstore
  have hlabels : ∀ spot ∈ groveTree.spots false, ∀ place : Place, place.numbered = spot.place →
      grove.CanLabel place.node := by
    have hnodes : ∀ spot ∈ groveTree.spots false, grove.CanLabel spot.place.node := by decide
    intro spot hspot place hplace
    have hnode : place.numbered.node = spot.place.node := congrArg Place.node hplace
    exact hnode ▸ hnodes spot hspot
  obtain ⟨fuel, outcome, final, reached, hvisit, ⟨ending, hending⟩ | ⟨hfalse, _⟩, hreached, hnodup,
      hoffered⟩ :=
    @onward_visit_offers_each_once Nat leapingHost .place ⟨.null, .function 0, .null⟩ false
      ⟨grove, [], 2⟩ ⟨.null, .function 0, false⟩ rfl .anything ⟨grove, [], 2⟩ rfl
      (fun store leap => store = grove ∧ 0 < leap) ⟨rfl, by decide⟩ False groveTree hnode hstands
      (fun spot hspot place hplace => leaping_onward (hlabels spot hspot place hplace) spot.lineage)
  · refine ⟨fuel, ending, final, reached, ?_, hreached, hnodup, by simpa [offeredOf] using hoffered⟩
    exact hending ▸ hvisit
  · exact hfalse.elim

end Lineage
