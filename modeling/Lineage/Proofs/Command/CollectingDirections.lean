import Lineage.Proofs.Command.Collecting

namespace Lineage

namespace Store

/-- The members that a value has as children; what is no sequence has none. -/
def membersOf (store : Store) (children : Value) : List Value :=
  (store.members? children).getD []

/-- Children that can be gone through: a sequence, or a mapping without
    fields. -/
def IsListed (store : Store) (children : Value) : Prop :=
  store.lengthOf children = .ok (store.membersOf children).length

section Members

variable {store : Store} {children : Value} {place : Int}

theorem childAt_inside {n : Nat} (hn : n < (store.membersOf children).length) :
    store.childAt children (.int n) = .ok (some (store.membersOf children)[n]) := by
  cases hmembers : store.members? children with
  | none => simp [membersOf, hmembers] at hn
  | some members =>
    have hnull : children ≠ .null := by
      rintro rfl
      cases hmembers
    have hlist : store.membersOf children = members := by simp [membersOf, hmembers]
    simp only [hlist] at hn ⊢
    simp [childAt, hnull, isFromStart, Value.position?, Value.isBelow, lengthOf, memberAt, hmembers,
      hn, bind, Except.bind, pure, Except.pure]

theorem childAt_between {before after : List Value} {child : Value}
    (hmembers : store.membersOf children = before ++ child :: after) :
    store.childAt children (.int before.length) = .ok (some child) := by
  have hn : before.length < (store.membersOf children).length := by
    rw [hmembers, List.length_append, List.length_cons]
    omega
  have hinside := childAt_inside hn
  simpa only [hmembers, List.getElem_append_right (Nat.le_refl _), Nat.sub_self,
    List.getElem_cons_zero] using hinside

theorem childAt_outside (hlisted : store.IsListed children)
    (houtside : ¬(0 ≤ place ∧ place < (store.membersOf children).length)) :
    store.childAt children (.int place) = .ok none := by
  by_cases hnull : children = .null
  · simp [childAt, hnull, pure, Except.pure]
  · by_cases hfrom : 0 ≤ place
    · have hbeyond : ¬place < (store.membersOf children).length := fun h => houtside ⟨hfrom, h⟩
      simp [childAt, hnull, isFromStart, Value.position?, Value.isBelow,
        show store.lengthOf children = _ from hlisted, hfrom, hbeyond, bind, Except.bind, pure,
        Except.pure]
    · simp [childAt, hnull, isFromStart, Value.position?, hfrom, bind, Except.bind, pure,
        Except.pure]

/-- Where there is no child, the cursor is outside of the members. -/
theorem outside_of_childAt (hchild : store.childAt children (.int place) = .ok none) :
    ¬(0 ≤ place ∧ place < (store.membersOf children).length) := by
  rintro ⟨hfrom, hbelow⟩
  obtain ⟨n, rfl⟩ := Int.eq_ofNat_of_zero_le hfrom
  have hn : n < (store.membersOf children).length := by omega
  have hinside := childAt_inside hn
  cases hchild.symm.trans hinside

theorem inside_of_childAt {child : Value}
    (hplain : ∀ entries, store.cell? children ≠ some (.table entries))
    (hchild : store.childAt children (.int place) = .ok (some child)) :
    ∃ n : Nat, place = n ∧ ∃ hn : n < (store.membersOf children).length,
      (store.membersOf children)[n] = child := by
  obtain ⟨members, hmembers, n, hplace, hn, hchild⟩ := members?_of_childAt hplain hchild
  have hlist : store.membersOf children = members := by simp [membersOf, hmembers]
  simp only [hlist]
  exact ⟨n, Option.some.inj hplace, hn, hchild⟩

/-- What has a length can be gone through, unless it is a mapping with fields: it
    has no child at its places. -/
theorem isListed_or_fails {length : Nat} (hnull : children ≠ .null)
    (hplain : ∀ entries, store.cell? children ≠ some (.table entries))
    (hlength : store.lengthOf children = .ok length) :
    store.IsListed children ∨ 0 < length ∧
      ∀ n : Nat, n < length → ∃ fault, store.childAt children (.int n) = .error fault := by
  cases hmembers : store.members? children with
  | some members => simp [IsListed, membersOf, lengthOf, hmembers, pure, Except.pure]
  | none =>
    by_cases hempty : length = 0
    · simp [IsListed, membersOf, hmembers, hlength, hempty]
    · refine Or.inr ⟨by omega, fun n hn => ⟨.of (.missingKey (.int n)), ?_⟩⟩
      have hmissing : store.memberAt children (.int n) = .error (.of (.missingKey (.int n))) := by
        simp only [memberAt, hmembers]
        rfl
      simp [childAt, hnull, isFromStart, Value.position?, Value.isBelow, hlength, hn, hmissing,
        bind, Except.bind, pure, Except.pure]

end Members

end Store

namespace Walker

variable {σ : Type} {walker : Walker σ} {store : Store} {children inside : Value}

/-- A cursor from which a walk in its direction has not left the members. -/
def IsOn (reverse : Bool) (count : Nat) (cursor : Int) : Prop :=
  if reverse then cursor < count else 0 ≤ cursor

/-- Children that are taken up can be gone through, from the first of them in the
    direction of the walk, or else the first look at them fails. -/
theorem startOf_cases (hnull : children ≠ .null)
    (hplain : ∀ entries, store.cell? children ≠ some (.table entries))
    (hstart : walker.startOf store children = .ok inside) :
    (store.IsListed children ∧
      inside = .int (entryOf walker.reverse 0 (store.membersOf children).length)) ∨
    ∃ (place : Int) (fault : Fault), inside = .int place ∧
      store.childAt children (.int place) = .error fault := by
  unfold startOf at hstart
  cases hlength : store.lengthOf children with
  | error fault =>
    -- The length is asked for at the first look if not before.
    cases hreverse : walker.reverse with
    | true => simp [hreverse, hlength, bind, Except.bind] at hstart
    | false =>
      simp only [hreverse, Bool.false_eq_true, if_false] at hstart
      cases hstart
      refine Or.inr ⟨0, fault, rfl, ?_⟩
      simp [Store.childAt, hnull, Store.isFromStart, Value.position?, hlength, bind, Except.bind,
        pure, Except.pure]
  | ok length =>
    rcases Store.isListed_or_fails hnull hplain hlength with hlisted | ⟨hpositive, hfails⟩
    · obtain rfl : length = (store.membersOf children).length :=
        Except.ok.inj (hlength.symm.trans hlisted)
      refine Or.inl ⟨hlisted, ?_⟩
      cases hreverse : walker.reverse with
      | true =>
        simp only [hreverse, if_true, hlength, bind, Except.bind] at hstart
        cases hstart
        simp [entryOf]
      | false =>
        simp only [hreverse, Bool.false_eq_true, if_false] at hstart
        cases hstart
        rfl
    · cases hreverse : walker.reverse with
      | true =>
        simp only [hreverse, if_true, hlength, bind, Except.bind] at hstart
        cases hstart
        obtain ⟨fault, hfault⟩ := hfails (length - 1) (by omega)
        have hlast : ((length : Int) - 1) = (length - 1 : Nat) := by omega
        exact Or.inr ⟨length - 1, fault, rfl, by rw [hlast]; exact hfault⟩
      | false =>
        simp only [hreverse, Bool.false_eq_true, if_false] at hstart
        cases hstart
        obtain ⟨fault, hfault⟩ := hfails 0 hpositive
        exact Or.inr ⟨0, fault, rfl, hfault⟩

theorem startOf_listed (hlisted : store.IsListed children) : walker.startOf store children =
    .ok (.int (entryOf walker.reverse 0 (store.membersOf children).length)) := by
  unfold startOf entryOf
  cases walker.reverse with
  | true =>
    simp [show store.lengthOf children = _ from hlisted, bind, Except.bind, pure, Except.pure]
  | false => rfl

section Remaining

variable {α : Type} {members : List α} {cursor : Int} {reverse : Bool}

theorem remaining_entryOf (reverse : Bool) (members : List α) :
    remaining reverse members (entryOf reverse 0 members.length) = members := by
  unfold remaining entryOf
  cases reverse <;> simp

theorem isOn_entryOf (reverse : Bool) (count : Nat) :
    IsOn reverse count (entryOf reverse 0 count) := by
  unfold IsOn entryOf
  cases reverse with
  | true =>
    simp only [if_true]
    omega
  | false => exact Int.le_refl 0

/-- Nothing is left of the members once the cursor is outside of them. -/
theorem remaining_outside (hon : IsOn reverse members.length cursor)
    (houtside : ¬(0 ≤ cursor ∧ cursor < members.length)) : remaining reverse members cursor = [] := by
  unfold IsOn at hon
  unfold remaining
  cases reverse with
  | true =>
    have hbefore : (cursor + 1).toNat = 0 := by
      simp only [if_true] at hon
      omega
    simp [hbefore]
  | false =>
    simp only [Bool.false_eq_true, if_false] at hon ⊢
    exact List.drop_eq_nil_of_le (by omega)

/-- The member at the cursor is left, with those that are left after it. -/
theorem remaining_perm {walker : Walker σ} {n : Nat} (hn : n < members.length) :
    (members[n] :: remaining walker.reverse members (n + walker.stride)).Perm
      (remaining walker.reverse members n) ∧
    IsOn walker.reverse members.length (n + walker.stride) := by
  have hafter : ((n : Int) + 1).toNat = n + 1 := by omega
  have hbefore : ((n : Int) + -1 + 1).toNat = n := by omega
  unfold remaining stride IsOn
  cases walker.reverse with
  | false =>
    simp only [Bool.false_eq_true, if_false, Int.toNat_natCast, hafter]
    rw [List.drop_eq_getElem_cons hn]
    exact ⟨.refl _, by omega⟩
  | true =>
    simp only [if_true, hafter, hbefore]
    rw [List.take_succ_eq_append_getElem hn]
    exact ⟨(List.perm_append_singleton _ _).symm, by omega⟩

end Remaining

end Walker

namespace Collect

/-- What a check decides on the data in a store, wherever it is met. -/
def Decides (check : Check) (base : Store) (passes : Value → Bool) : Prop :=
  ∀ (datum : Datum) (place : Place) (world : World (List Finding)),
    datum.StandsAt base place.node → world.store = base →
      check.test noHost place world = .ok (passes place.node) world

theorem exists_decides {check : Check} (himpartial : check.Impartial) (base : Store) :
    ∃ passes, Decides check base passes := by
  have hdecided : ∀ node, ∃ verdict, base.IsData node → base.HasData node →
      ∀ (place : Place) (world : World (List Finding)), place.node = node → world.store = base →
        check.test noHost place world = .ok verdict world := by
    intro node
    by_cases hdata : base.IsData node ∧ base.HasData node
    · obtain ⟨verdict, hverdict⟩ := himpartial base node hdata.1 hdata.2
      exact ⟨verdict, fun _ _ place world hnode hstore =>
        hverdict _ noHost place world hnode (by rw [hstore]; exact .refl base)⟩
    · exact ⟨true, fun hnode hhas => absurd ⟨hnode, hhas⟩ hdata⟩
  choose passes hpasses using hdecided
  exact ⟨passes, fun datum place world hstands hstore =>
    hpasses _ hstands.isData hstands.hasData place world rfl hstore⟩

section Yields

variable (passes : Value → Bool) (maxDepth : Option Nat) (base : Store)

/-- What is found on a node itself. -/
def foundOn (lineage : List Value) (node : Value) : List Finding :=
  if passes node then [findingOn base node lineage] else []

/-- A node that passes has a label that can be made. -/
def IsKnown (node : Value) : Prop :=
  passes node = true → base.Describes node

/-- What is found on nodes of one level and below them, the direction aside.
    Gaps are passed over; a node without children or at the deepest level is not
    entered. Nothing is found unless a label can be made of every node that
    passes. -/
inductive Yields : List Value → List Value → List Finding → Prop where
  | nil {lineage : List Value} : Yields lineage [] []
  | gap {lineage values : List Value} {found : List Finding}
      (hrest : Yields lineage values found) : Yields lineage (.null :: values) found
  | stays {lineage values : List Value} {node : Value} {found : List Finding}
      (hnode : node ≠ .null) (hknown : IsKnown passes base node)
      (hstay : base.children node = .null ∨ isDeepest maxDepth lineage.length = true)
      (hrest : Yields lineage values found) :
      Yields lineage (node :: values) (foundOn passes base lineage node ++ found)
  | enters {lineage values : List Value} {node : Value} {below found : List Finding}
      (hnode : node ≠ .null) (hknown : IsKnown passes base node)
      (hparent : base.children node ≠ .null)
      (hshallow : isDeepest maxDepth lineage.length = false)
      (hlisted : base.IsListed (base.children node))
      (hbelow : Yields (node :: lineage) (base.membersOf (base.children node)) below)
      (hrest : Yields lineage values found) :
      Yields lineage (node :: values) (foundOn passes base lineage node ++ below ++ found)

variable {passes : Value → Bool} {maxDepth : Option Nat} {base : Store} {lineage values : List Value}

/-- What is found on a level is what is found on its first node and on the
    others. -/
theorem yields_cons_iff {node : Value} {found : List Finding} :
    Yields passes maxDepth base lineage (node :: values) found ↔
      ∃ first others, Yields passes maxDepth base lineage [node] first ∧
        Yields passes maxDepth base lineage values others ∧ found = first ++ others := by
  constructor
  · intro hyields
    cases hyields with
    | gap hrest => exact ⟨[], _, .gap .nil, hrest, rfl⟩
    | stays hnode hknown hstay hrest =>
      exact ⟨_, _, .stays hnode hknown hstay .nil, hrest, by rw [List.append_nil]⟩
    | enters hnode hknown hparent hshallow hlisted hbelow hrest =>
      exact ⟨_, _, .enters hnode hknown hparent hshallow hlisted hbelow .nil, hrest,
        by rw [List.append_nil]⟩
  · rintro ⟨first, others, hfirst, hrest, rfl⟩
    cases hfirst with
    | gap hnil =>
      cases hnil
      exact .gap hrest
    | stays hnode hknown hstay hnil =>
      cases hnil
      rw [List.append_nil]
      exact .stays hnode hknown hstay hrest
    | enters hnode hknown hparent hshallow hlisted hbelow hnil =>
      cases hnil
      rw [List.append_nil]
      exact .enters hnode hknown hparent hshallow hlisted hbelow hrest

/-- The order of the nodes of a level makes no difference but to the order of
    what is found. -/
theorem Yields.perm {others : List Value} (hperm : values.Perm others) {found : List Finding}
    (hyields : Yields passes maxDepth base lineage values found) :
    ∃ more, Yields passes maxDepth base lineage others more ∧ more.Perm found := by
  induction hperm generalizing found with
  | nil => exact ⟨found, hyields, .refl found⟩
  | cons node _ ih =>
    obtain ⟨first, rest, hfirst, hrest, rfl⟩ := yields_cons_iff.mp hyields
    obtain ⟨more, hmore, hfound⟩ := ih hrest
    exact ⟨first ++ more, yields_cons_iff.mpr ⟨_, _, hfirst, hmore, rfl⟩, hfound.append_left first⟩
  | swap second first rest =>
    obtain ⟨one, _, hone, hothers, rfl⟩ := yields_cons_iff.mp hyields
    obtain ⟨two, more, htwo, hmore, rfl⟩ := yields_cons_iff.mp hothers
    refine ⟨two ++ (one ++ more), ?_, ?_⟩
    · exact yields_cons_iff.mpr ⟨_, _, htwo, yields_cons_iff.mpr ⟨_, _, hone, hmore, rfl⟩, rfl⟩
    · rw [← List.append_assoc, ← List.append_assoc]
      exact List.perm_append_comm.append_right more
  | trans _ _ ihfirst ihsecond =>
    obtain ⟨middle, hmiddle, hfirst⟩ := ihfirst hyields
    obtain ⟨more, hmore, hsecond⟩ := ihsecond hmiddle
    exact ⟨more, hmore, hsecond.trans hfirst⟩

end Yields

/-- A part of collecting that comes to `a` if it comes to anything: it leaves the
    store alone and finds, in some order, what there is on some nodes and below
    them. It does not exit. -/
def Reaps {α : Type} (passes : Value → Bool) (maxDepth : Option Nat) (base : Store)
    (lineage values : List Value) (world : World (List Finding)) (a : α) :
    EStateM.Result Halt (World (List Finding)) α → Prop
  | .ok b later => b = a ∧ later.store = base ∧ ∃ found,
      Yields passes maxDepth base lineage values found ∧ later.user.Perm (found ++ world.user)
  | .error (.exited _) _ => False
  | .error _ _ => True

section Reaping

variable {α β : Type} {passes : Value → Bool} {maxDepth : Option Nat} {base : Store}
  {lineage values : List Value} {world : World (List Finding)}

theorem Reaps.none (hstore : world.store = base) (a : α) :
    Reaps passes maxDepth base lineage [] world a (.ok a world) :=
  ⟨rfl, hstore, [], .nil, .refl _⟩

theorem Reaps.gap {a : α} {result : EStateM.Result Halt (World (List Finding)) α}
    (hreaps : Reaps passes maxDepth base lineage values world a result) :
    Reaps passes maxDepth base lineage (.null :: values) world a result := by
  rcases result with ⟨b, later⟩ | ⟨halt, later⟩
  · obtain ⟨rfl, hstore, found, hyields, huser⟩ := hreaps
    exact ⟨rfl, hstore, found, .gap hyields, huser⟩
  · cases halt <;> exact hreaps

theorem Reaps.perm {others : List Value} {a : α}
    {result : EStateM.Result Halt (World (List Finding)) α}
    (hreaps : Reaps passes maxDepth base lineage values world a result)
    (hperm : values.Perm others) : Reaps passes maxDepth base lineage others world a result := by
  rcases result with ⟨b, later⟩ | ⟨halt, later⟩
  · obtain ⟨rfl, hstore, found, hyields, huser⟩ := hreaps
    obtain ⟨more, hmore, hfound⟩ := hyields.perm hperm
    exact ⟨rfl, hstore, more, hmore, huser.trans (hfound.symm.append_right world.user)⟩
  · cases halt <;> exact hreaps

/-- A node and then the others of its level. -/
theorem Reaps.bind {node : Value} {part : Visiting (List Finding) α}
    {next : α → Visiting (List Finding) β} {a : α} {b : β}
    (hpart : Reaps passes maxDepth base lineage [node] world a (part world))
    (hnext : ∀ later : World (List Finding), later.store = base →
      Reaps passes maxDepth base lineage values later b (next a later)) :
    Reaps passes maxDepth base lineage (node :: values) world b ((part >>= next) world) := by
  show Reaps passes maxDepth base lineage _ world b (EStateM.bind part next world)
  unfold EStateM.bind
  rcases hresult : part world with ⟨c, middle⟩ | ⟨halt, middle⟩
  · rw [hresult] at hpart
    obtain ⟨rfl, hmiddle, first, hfirst, huser⟩ := hpart
    have hsecond := hnext middle hmiddle
    show Reaps passes maxDepth base lineage _ world b (next c middle)
    rcases hrest : next c middle with ⟨d, later⟩ | ⟨halt, later⟩
    · rw [hrest] at hsecond
      obtain ⟨rfl, hlater, others, hothers, hmore⟩ := hsecond
      refine ⟨rfl, hlater, first ++ others, yields_cons_iff.mpr ⟨_, _, hfirst, hothers, rfl⟩, ?_⟩
      calc later.user.Perm (others ++ middle.user) := hmore
        _ |>.Perm (others ++ (first ++ world.user)) := huser.append_left others
        _ |>.Perm (first ++ others ++ world.user) := by
          rw [← List.append_assoc]
          exact List.perm_append_comm.append_right world.user
    · rw [hrest] at hsecond
      cases halt <;> exact hsecond
  · rw [hresult] at hpart
    cases halt <;> exact hpart

/-- A node that is left at once. -/
theorem Reaps.stays {node : Value} (hnode : node ≠ .null) (hknown : IsKnown passes base node)
    (hstay : base.children node = .null ∨ isDeepest maxDepth lineage.length = true)
    (journal : List Entry) :
    Reaps passes maxDepth base lineage [node] world Value.null
      (.ok .null ⟨base, journal, foundOn passes base lineage node ++ world.user⟩) :=
  ⟨rfl, rfl, _, .stays hnode hknown hstay .nil, by rw [List.append_nil]⟩

/-- A node that is entered once its own finding is there. -/
theorem Reaps.enters {node : Value} {part : Visiting (List Finding) Unit} {journal : List Entry}
    (hnode : node ≠ .null) (hknown : IsKnown passes base node)
    (hparent : base.children node ≠ .null)
    (hshallow : isDeepest maxDepth lineage.length = false)
    (hlisted : base.IsListed (base.children node))
    (hpart : Reaps passes maxDepth base (node :: lineage) (base.membersOf (base.children node))
      ⟨base, journal, foundOn passes base lineage node ++ world.user⟩ ()
      (part ⟨base, journal, foundOn passes base lineage node ++ world.user⟩)) :
    Reaps passes maxDepth base lineage [node] world Value.null
      ((part >>= fun _ => pure .null)
        ⟨base, journal, foundOn passes base lineage node ++ world.user⟩) := by
  show Reaps passes maxDepth base lineage [node] world Value.null (EStateM.bind part _ _)
  unfold EStateM.bind
  rcases hresult : part ⟨base, journal, foundOn passes base lineage node ++ world.user⟩ with
    ⟨_, later⟩ | ⟨halt, later⟩
  · rw [hresult] at hpart
    obtain ⟨_, hlater, below, hyields, huser⟩ := hpart
    refine ⟨rfl, hlater, _, .enters hnode hknown hparent hshallow hlisted hyields .nil, ?_⟩
    calc later.user.Perm (below ++ (foundOn passes base lineage node ++ world.user)) := huser
      _ |>.Perm (foundOn passes base lineage node ++ below ++ [] ++ world.user) := by
        rw [List.append_nil, ← List.append_assoc]
        exact List.perm_append_comm.append_right world.user
  · rw [hresult] at hpart
    cases halt <;> exact hpart

end Reaping

/-- What a part of collecting that leaves the store alone adds to the findings, in
    some order. -/
def Finds (base : Store) (found : List Finding) (world later : World (List Finding)) : Prop :=
  later.store = base ∧ ∃ new, later.user = new ++ world.user ∧ new.Perm found

section Finds

variable {base : Store} {found more : List Finding} {world middle later : World (List Finding)}

theorem Finds.nothing (hstore : world.store = base) : Finds base [] world world :=
  ⟨hstore, [], rfl, .refl _⟩

theorem Finds.trans (hfirst : Finds base found world middle) (hsecond : Finds base more middle later) :
    Finds base (found ++ more) world later := by
  obtain ⟨_, first, hmiddle, hfound⟩ := hfirst
  obtain ⟨hstore, second, hlater, hmore⟩ := hsecond
  refine ⟨hstore, second ++ first, ?_, ?_⟩
  · rw [hlater, hmiddle, List.append_assoc]
  · exact (hmore.append hfound).trans List.perm_append_comm

theorem Finds.perm (hfinds : Finds base found world later) (hperm : found.Perm more) :
    Finds base more world later := by
  obtain ⟨hstore, new, huser, hnew⟩ := hfinds
  exact ⟨hstore, new, huser, hnew.trans hperm⟩

end Finds

section Walks

variable {check : Check} {config : Config} {base : Store} {passes : Value → Bool}
  (hdecides : Decides check base passes)

include hdecides

theorem one_cases {datum : Datum} {place : Place} (hstands : datum.StandsAt base place.node)
    (lineage : List Value) {world : World (List Finding)} (hstore : world.store = base) :
    IsKnown passes base place.node ∧
      (∃ journal, (walker check config).one place lineage world =
        .ok (if isDeepest config.maxDepth lineage.length then .skip else {})
          ⟨base, journal, foundOn passes base lineage place.node ++ world.user⟩) ∨
    ¬IsKnown passes base place.node ∧
      ∃ fault later, (walker check config).one place lineage world = .error fault later := by
  have hone := @one_walker check config place lineage world (passes place.node)
    fun other later hnode hsame => by
      have htest := hdecides datum other later (by rwa [hnode]) (hsame.trans hstore)
      rwa [hnode] at htest
  rw [hstore] at hone
  exact hone.imp (And.imp_right fun hone => ⟨_, hone⟩)
    (And.imp_left fun hunknown hknown => hunknown.2 (hknown hunknown.1))

theorem one_decides {datum : Datum} {place : Place} (hstands : datum.StandsAt base place.node)
    (hknown : IsKnown passes base place.node) (lineage : List Value)
    {world : World (List Finding)} (hstore : world.store = base) :
    ∃ journal, (walker check config).one place lineage world =
      .ok (if isDeepest config.maxDepth lineage.length then .skip else {})
        ⟨base, journal, foundOn passes base lineage place.node ++ world.user⟩ :=
  (one_cases hdecides hstands lineage hstore).elim And.right fun hunknown =>
    (hunknown.1 hknown).elim

/-- Visiting a node reaps it if visiting the children does. -/
theorem visitOne_reaps {limit : Nat}
    (hloop : ∀ lineage parent (datum : Datum) (cursor : Int) (world : World (List Finding)),
      datum.StandsAt base parent → world.store = base →
      Walker.IsOn config.reverse (base.membersOf (base.children parent)).length cursor →
      Reaps passes config.maxDepth base lineage
        (Walker.remaining config.reverse (base.membersOf (base.children parent)) cursor) world ()
        ((walker check config).visitChildren limit lineage parent (.int cursor) world))
    {lineage : List Value} {place : Place} {datum : Datum} {world : World (List Finding)}
    (hnode : place.node ≠ .null) (hstands : datum.StandsAt base place.node)
    (hstore : world.store = base) :
    Reaps passes config.maxDepth base lineage [place.node] world .null
      ((walker check config).visitOne ((walker check config).visitChildren limit) lineage place
        world) := by
  rcases @one_cases check config base passes hdecides datum place hstands lineage world hstore with
    ⟨hknown, journal, hone⟩ | ⟨_, fault, later, hone⟩
  swap
  · rw [Walker.visitOne_fails _ _ _ _ hone]
    trivial
  by_cases hstay : base.children place.node = .null ∨
      isDeepest config.maxDepth lineage.length = true
  · rw [visitOne_unentered hone hstay]
    exact .stays hnode hknown hstay journal
  · obtain ⟨hparent, hdeepest⟩ := not_or.mp hstay
    have hshallow : isDeepest config.maxDepth lineage.length = false := by simpa using hdeepest
    rw [hshallow] at hone
    have hexit : ({} : Directive).action ≠ .action .exit := by simp
    have henter : ¬(base.children place.node = .null ∨
        ({} : Directive).action = .action .skip) := by
      simp [hparent]
    rcases hstart : (walker check config).startOf base (base.children place.node) with
      fault | inside
    · rw [Walker.visitOne_enter_fails _ _ _ _ hone hexit henter hstart]
      trivial
    · rw [Walker.visitOne_descends _ _ _ _ hone hexit henter hstart]
      rcases Walker.startOf_cases hparent hstands.children.ne_table hstart with
        ⟨hlisted, rfl⟩ | ⟨cursor, fault, rfl, hfails⟩
      · have hbelow := hloop (place.node :: lineage) place.node datum _
          ⟨base, journal, foundOn passes base lineage place.node ++ world.user⟩ hstands rfl
          (Walker.isOn_entryOf _ _)
        rw [Walker.remaining_entryOf] at hbelow
        exact hbelow.enters hnode hknown hparent hshallow hlisted
      · -- The first look at the children fails, so nothing comes of it.
        show Reaps passes config.maxDepth base lineage _ world Value.null (EStateM.bind _ _ _)
        unfold EStateM.bind
        cases limit with
        | zero => trivial
        | succ limit =>
          rw [Walker.visitChildren_fails _ hfails]
          trivial

/-- Visiting the children of a node reaps those that are left. The induction is
    on the limit of the recursion. -/
theorem visitChildren_reaps (limit : Nat) : ∀ lineage parent (datum : Datum) (cursor : Int)
    (world : World (List Finding)), datum.StandsAt base parent → world.store = base →
    Walker.IsOn config.reverse (base.membersOf (base.children parent)).length cursor →
    Reaps passes config.maxDepth base lineage
      (Walker.remaining config.reverse (base.membersOf (base.children parent)) cursor) world ()
      ((walker check config).visitChildren limit lineage parent (.int cursor) world) := by
  induction limit with
  | zero => intros; trivial
  | succ limit ih =>
    intro lineage parent datum cursor world hstands hstore hon
    rcases hchild : world.store.childAt (world.store.children parent) (.int cursor) with
      fault | child
    · rw [Walker.visitChildren_fails _ hchild]
      trivial
    have hread := hchild
    rw [hstore] at hread
    cases child with
    | none =>
      rw [Walker.visitChildren_ends _ hchild,
        Walker.remaining_outside hon (Store.outside_of_childAt hread)]
      exact .none hstore ()
    | some child =>
      obtain ⟨n, rfl, hn, hmember⟩ := Store.inside_of_childAt hstands.children.ne_table hread
      obtain ⟨hperm, hnext⟩ := @Walker.remaining_perm _ _ _ (walker check config) n hn
      rw [hmember] at hperm
      refine Reaps.perm ?_ hperm
      have hothers := fun later hlater => ih lineage parent datum _ later hstands hlater hnext
      by_cases hnode : child = .null
      · subst hnode
        rw [Walker.visitChildren_passes _ hchild]
        exact (hothers world hstore).gap
      · rw [Walker.visitChildren_child _ hnode hchild]
        obtain ⟨member, hstanding⟩ := hstands.exists_child hread
        exact Reaps.bind (visitOne_reaps hdecides ih hnode hstanding hstore) hothers

/-- A walk that is over could label its root and has reaped it. -/
theorem walk_reaps {tree : Datum} {root : Value} (hstands : tree.StandsAt base root)
    (hnode : root ≠ .null) {fuel : Nat} {ending : Ending} {final : World (List Finding)}
    (hwalk : (walker check config).walk fuel root ⟨base, [], []⟩ = some (.ok ending final)) :
    base.CanLabel root ∧
      ∃ found, Yields passes config.maxDepth base [] [root] found ∧ final.user.Perm found := by
  rcases (walker check config).announce_cases root ⟨base, [], []⟩ with
    ⟨fault, _, hannounce⟩ | ⟨message, hlabel, hannounce⟩
  · rw [Walker.walk_announce_fails _ hannounce] at hwalk
    cases hwalk
  refine ⟨hlabel, ?_⟩
  have htells := Walker.tells_of_walk hannounce hwalk
  have hreaps := @visitOne_reaps check config base passes hdecides fuel
    (visitChildren_reaps hdecides fuel) [] { node := root } tree (World.told ⟨base, [], []⟩ message)
    hnode hstands rfl
  simp only [Walker.walkRecursively, bind, EStateM.bind] at htells
  rcases hresult : (walker check config).visitOne ((walker check config).visitChildren fuel) []
    { node := root } (World.told ⟨base, [], []⟩ message) with ⟨index, later⟩ | ⟨halt, later⟩
  · rw [hresult] at hreaps htells
    obtain ⟨_, _, found, hyields, huser⟩ := hreaps
    cases htells with
    | finished last close => exact ⟨found, hyields, by simpa [World.told] using huser⟩
  · rw [hresult] at hreaps htells
    cases htells with
    | exited place last close => exact hreaps.elim

omit hdecides in
/-- A node and the others of its level, whichever come first. -/
theorem sweeps_cons {lineage : List Value} {parent : Value} {start count : Nat}
    {first others : List Finding}
    (hhere : ∀ world : World (List Finding), world.store = base → ∃ later,
      (walker check config).Sweeps lineage parent start world
        (Walker.exitOf config.reverse start 1) later ∧ Finds base first world later)
    (hrest : ∀ world : World (List Finding), world.store = base → ∃ later,
      (walker check config).Sweeps lineage parent
        (Walker.entryOf config.reverse (start + 1) count) world
        (Walker.exitOf config.reverse (start + 1) count) later ∧ Finds base others world later)
    (world : World (List Finding)) (hstore : world.store = base) : ∃ later,
      (walker check config).Sweeps lineage parent
        (Walker.entryOf config.reverse start (count + 1)) world
        (Walker.exitOf config.reverse start (count + 1)) later ∧
      Finds base (first ++ others) world later := by
  unfold Walker.entryOf Walker.exitOf at hrest ⊢
  unfold Walker.exitOf at hhere
  cases hreverse : config.reverse with
  | false =>
    simp only [hreverse, Bool.false_eq_true, if_false] at hrest hhere ⊢
    obtain ⟨middle, hfirst, hmiddle⟩ := hhere world hstore
    obtain ⟨later, hothers, hlater⟩ := hrest middle hmiddle.1
    refine ⟨later, ?_, hmiddle.trans hlater⟩
    have hend : (start : Int) + (count + 1 : Nat) = ((start + 1 : Nat) : Int) + count := by omega
    rw [hend]
    exact hfirst.trans hothers
  | true =>
    simp only [hreverse, if_true] at hrest hhere ⊢
    obtain ⟨middle, hothers, hmiddle⟩ := hrest world hstore
    obtain ⟨later, hlast, hlater⟩ := hhere middle hmiddle.1
    refine ⟨later, ?_, (hmiddle.trans hlater).perm List.perm_append_comm⟩
    have hstart : (start : Int) + (count + 1 : Nat) - 1 = ((start + 1 : Nat) : Int) + count - 1 := by
      omega
    have hnext : ((start + 1 : Nat) : Int) - 1 = start := by omega
    rw [hnext] at hothers
    rw [hstart]
    exact hothers.trans hlast

omit hdecides in
theorem add_stride (check : Check) (config : Config) (start : Nat) :
    (start : Int) + (walker check config).stride = Walker.exitOf config.reverse start 1 := by
  unfold Walker.exitOf Walker.stride walker
  cases config.reverse <;> simp
  omega

theorem completes_stays {datum : Datum} {place : Place} (hstands : datum.StandsAt base place.node)
    (hknown : IsKnown passes base place.node) {lineage : List Value}
    (hstay : base.children place.node = .null ∨ isDeepest config.maxDepth lineage.length = true)
    {world : World (List Finding)} (hstore : world.store = base) : ∃ later,
      (walker check config).Completes lineage place world .null later ∧
      Finds base (foundOn passes base lineage place.node) world later := by
  obtain ⟨journal, hone⟩ :=
    @one_decides check config base passes hdecides datum place hstands hknown lineage world hstore
  refine ⟨⟨base, journal, foundOn passes base lineage place.node ++ world.user⟩, ?_, rfl, _, rfl,
    .refl _⟩
  cases hdeepest : isDeepest config.maxDepth lineage.length with
  | true =>
    rw [hdeepest] at hone
    exact Walker.completes_of_stays hone (by simp [Directive.skip]) (Or.inr rfl)
  | false =>
    rw [hdeepest] at hone hstay
    exact Walker.completes_of_stays hone (by simp) (Or.inl (hstay.resolve_right (by simp)))

theorem completes_enters {datum : Datum} {place : Place} (hstands : datum.StandsAt base place.node)
    (hknown : IsKnown passes base place.node) {lineage : List Value} {below : List Finding}
    (hparent : base.children place.node ≠ .null)
    (hshallow : isDeepest config.maxDepth lineage.length = false)
    (hlisted : base.IsListed (base.children place.node))
    (hbelow : ∀ world : World (List Finding), world.store = base → ∃ later,
      (walker check config).Sweeps (place.node :: lineage) place.node
        (Walker.entryOf config.reverse 0 (base.membersOf (base.children place.node)).length) world
        (Walker.exitOf config.reverse 0 (base.membersOf (base.children place.node)).length) later ∧
      Finds base below world later)
    {world : World (List Finding)} (hstore : world.store = base) : ∃ later,
      (walker check config).Completes lineage place world .null later ∧
      Finds base (foundOn passes base lineage place.node ++ below) world later := by
  obtain ⟨journal, hone⟩ :=
    @one_decides check config base passes hdecides datum place hstands hknown lineage world hstore
  rw [hshallow] at hone
  obtain ⟨later, hsweeps, hfinds⟩ :=
    hbelow ⟨base, journal, foundOn passes base lineage place.node ++ world.user⟩ rfl
  have hhere : Finds base (foundOn passes base lineage place.node) world
      ⟨base, journal, foundOn passes base lineage place.node ++ world.user⟩ :=
    ⟨rfl, _, rfl, .refl _⟩
  refine ⟨later, ?_, hhere.trans hfinds⟩
  refine hsweeps.completes hone (by simp) (by simp) hparent (Walker.startOf_listed hlisted) ?_
  rw [hfinds.1]
  apply Store.childAt_outside hlisted
  unfold Walker.exitOf
  cases config.reverse <;> simp

omit hdecides in
/-- A node that is done with, and the others of its level. -/
theorem sweeps_node {lineage before values : List Value} {parent node : Value}
    {first others : List Finding} (hnode : node ≠ .null)
    (hmembers : base.membersOf (base.children parent) = before ++ node :: values)
    (hcompletes : ∀ world : World (List Finding), world.store = base → ∃ later,
      (walker check config).Completes lineage ⟨node, .int before.length, parent⟩ world .null later ∧
      Finds base first world later)
    (hrest : ∀ world : World (List Finding), world.store = base → ∃ later,
      (walker check config).Sweeps lineage parent
        (Walker.entryOf config.reverse (before ++ [node]).length values.length) world
        (Walker.exitOf config.reverse (before ++ [node]).length values.length) later ∧
      Finds base others world later) :
    ∀ world : World (List Finding), world.store = base → ∃ later,
      (walker check config).Sweeps lineage parent
        (Walker.entryOf config.reverse before.length (node :: values).length) world
        (Walker.exitOf config.reverse before.length (node :: values).length) later ∧
      Finds base (first ++ others) world later := by
  rw [List.length_append, List.length_singleton] at hrest
  refine sweeps_cons ?_ hrest
  intro world hstore
  obtain ⟨later, hcompleted, hfinds⟩ := hcompletes world hstore
  refine ⟨later, ?_, hfinds⟩
  rw [← add_stride check config before.length]
  exact hcompleted.sweeps hnode (by rw [hstore, Store.childAt_between hmembers]) rfl

/-- What there is to be found on a level and below it is found, in either
    direction. The induction is on what there is; the members of the level before
    these are only counted. -/
theorem sweeps_yields {lineage values : List Value} {found : List Finding}
    (hyields : Yields passes config.maxDepth base lineage values found) :
    ∀ (datum : Datum) (parent : Value) (before : List Value), datum.StandsAt base parent →
      base.membersOf (base.children parent) = before ++ values →
      ∀ world : World (List Finding), world.store = base → ∃ later,
        (walker check config).Sweeps lineage parent
          (Walker.entryOf config.reverse before.length values.length) world
          (Walker.exitOf config.reverse before.length values.length) later ∧
        Finds base found world later := by
  induction hyields with
  | nil =>
    intro datum parent before _ _ world hstore
    refine ⟨world, ?_, .nothing hstore⟩
    have hsame : Walker.entryOf config.reverse before.length 0 =
        Walker.exitOf config.reverse before.length 0 := by
      unfold Walker.entryOf Walker.exitOf
      cases config.reverse <;> simp
    rw [List.length_nil, hsame]
    exact .refl _ _ _ _ _
  | @gap lineage values found hrest ih =>
    intro datum parent before hstands hmembers
    have hothers := ih datum parent (before ++ [.null]) hstands (by rw [hmembers, List.append_cons])
    rw [List.length_append, List.length_singleton] at hothers
    refine @sweeps_cons check config base lineage parent _ _ [] found ?_ hothers
    intro world hstore
    refine ⟨world, ?_, .nothing hstore⟩
    rw [← add_stride check config before.length]
    exact Walker.sweeps_gap (by rw [hstore, Store.childAt_between hmembers])
  | @stays lineage values node found hnode hknown hstay hrest ih =>
    intro datum parent before hstands hmembers
    obtain ⟨member, hmember⟩ := hstands.exists_child (Store.childAt_between hmembers)
    exact sweeps_node hnode hmembers
      (fun _ hstore => completes_stays hdecides
        (show member.StandsAt base (Place.node ⟨node, .int before.length, parent⟩) from hmember)
        hknown hstay hstore)
      (ih datum parent (before ++ [node]) hstands (by rw [hmembers, List.append_cons]))
  | @enters lineage values node below found hnode hknown hparent hshallow hlisted hbelow hrest
      ihbelow ih =>
    intro datum parent before hstands hmembers
    obtain ⟨member, hmember⟩ := hstands.exists_child (Store.childAt_between hmembers)
    have hinside := ihbelow member node [] hmember rfl
    exact sweeps_node hnode hmembers
      (fun _ hstore => completes_enters hdecides
        (show member.StandsAt base (Place.node ⟨node, .int before.length, parent⟩) from hmember)
        hknown hparent hshallow hlisted hinside hstore)
      (ih datum parent (before ++ [node]) hstands (by rw [hmembers, List.append_cons]))

/-- Collecting gets done with a root from which there is something to be had. -/
theorem completes_root {tree : Datum} {root : Value} (hstands : tree.StandsAt base root)
    {found : List Finding} (hnode : root ≠ .null)
    (hyields : Yields passes config.maxDepth base [] [root] found)
    {world : World (List Finding)} (hstore : world.store = base) : ∃ later,
      (walker check config).Completes [] { node := root } world .null later ∧
      Finds base found world later := by
  cases hyields with
  | gap hrest => exact (hnode rfl).elim
  | stays _ hknown hstay hrest =>
    cases hrest
    rw [List.append_nil]
    exact completes_stays hdecides
      (show tree.StandsAt base (Place.node { node := root }) from hstands) hknown hstay hstore
  | enters _ hknown hparent hshallow hlisted hbelow hrest =>
    cases hrest
    rw [List.append_nil]
    exact completes_enters hdecides
      (show tree.StandsAt base (Place.node { node := root }) from hstands) hknown hparent hshallow
      hlisted (sweeps_yields hdecides hbelow tree root [] hstands rfl) hstore

end Walks

/-- What collecting finds is, in some order, what there is to be found from the
    root, which it could label. -/
theorem run_reaps {tree test : Datum} {root value : Value} {holding base : Store}
    (htree : tree.build .empty = (root, holding)) (hvalue : test.build holding = (value, base))
    {check : Check} (himpartial : check.Impartial) (hreads : check.Reads base value)
    {passes : Value → Bool} (hdecides : Decides check base passes) (hnode : tree ≠ .null)
    {config : Config} {findings : List Finding}
    (hfindings : (run tree test config).findings = .ok findings) :
    base.CanLabel root ∧
      ∃ found, Yields passes config.maxDepth base [] [root] found ∧ findings.Perm found := by
  have hstands := standsAt_of_build htree hvalue
  obtain ⟨outcome, houtcome⟩ := (walker_passive himpartial config base).walk_ends hstands
    (show (⟨base, [], []⟩ : World (List Finding)).store = base from rfl)
    (show 2 * tree.weight ≤ 2 * tree.weight + 2 by omega)
  have hconvert := hreads (List Finding) [] []
  simp only [run, htree, hvalue, hconvert, houtcome] at hfindings
  rcases outcome with ⟨ending, final⟩ | ⟨fault, final⟩
  · obtain ⟨hlabel, found, hyields, hfound⟩ :=
      walk_reaps hdecides hstands (hstands.ne_null hnode) houtcome
    obtain rfl : final.user.reverse = findings := Except.ok.inj hfindings
    exact ⟨hlabel, found, hyields, (List.reverse_perm _).trans hfound⟩
  · cases hfindings

/-- Collecting in the other direction finds the same, in some other order. -/
theorem run_turned {tree test : Datum}
    (htest : test = .null ∨ ∃ selector, Selector.parse selector = .ok test) (hnode : tree ≠ .null)
    {config other : Config} (hdepth : other.maxDepth = config.maxDepth) {findings : List Finding}
    (hfindings : (run tree test config).findings = .ok findings) :
    ∃ others, (run tree test other).findings = .ok others ∧ others.Perm findings := by
  rcases htree : tree.build .empty with ⟨root, holding⟩
  rcases hvalue : test.build holding with ⟨value, base⟩
  obtain ⟨check, himpartial, hreads⟩ := exists_impartial htest holding
  rw [hvalue] at hreads
  obtain ⟨passes, hdecides⟩ := exists_decides himpartial base
  have hstands := standsAt_of_build htree hvalue
  obtain ⟨hlabel, found, hyields, hfound⟩ :=
    run_reaps htree hvalue himpartial hreads hdecides hnode hfindings
  rw [← hdepth] at hyields
  obtain ⟨message, hannounce⟩ := @Walker.announce_tells _ (walker check other) root ⟨base, [], []⟩
    hlabel
  obtain ⟨later, hcompletes, _, new, huser, hnew⟩ := completes_root hdecides hstands
    (hstands.ne_null hnode) hyields
    (show (World.told (⟨base, [], []⟩ : World (List Finding)) message).store = base from rfl)
  obtain ⟨fuel, close, hwalk⟩ := Walker.walk_of_completes hannounce hcompletes
  refine ⟨_, run_eq himpartial htree hvalue hreads (hwalk 0), ?_⟩
  have hsame : (later.told close).user = new := by
    show later.user = new
    rw [huser]
    exact List.append_nil new
  show (later.told close).user.reverse.Perm findings
  rw [hsame]
  calc new.reverse.Perm new := List.reverse_perm new
    _ |>.Perm found := hnew
    _ |>.Perm findings := hfound.symm

end Collect

end Lineage
