import Lineage.Check.Test
import Lineage.Proofs.Node.Labels
import Lineage.Proofs.Store.Growth
import Lineage.Proofs.Walk.SideBySide
import Mathlib.Data.List.Perm.Subperm

namespace Lineage

mutual

/-- The checks that a check comes down to: those of which one has to be passed,
    from left to right and however deep they are nested. -/
def Check.leaves : Check → List Check
  | .anyOf checks => Check.leavesOfAll checks
  | check => [check]

def Check.leavesOfAll : List Check → List Check
  | [] => []
  | check :: rest => check.leaves ++ Check.leavesOfAll rest

end

/-- What a leaf of a test asks of a node. An unsupported value is passed by
    none, and a converted check asks what it comes down to. -/
def Check.ofLeaf (store : Store) (leaf : Value) : List Check :=
  match Check.read store leaf with
  | .plain check => check.leaves
  | _ => [.nothing]

namespace Store

mutual

/-- A test and its leaves, from left to right. A list or tuple has the leaves of
    its members, however deep they are nested; anything else is a leaf. -/
inductive Flattens (store : Store) : Value → List Value → Prop where
  | leaf {test : Value} (hleaf : ∀ tests, Check.read store test ≠ .members tests) :
      Flattens store test [test]
  | members {test : Value} {tests leaves : List Value}
      (hread : Check.read store test = .members tests) (hall : FlattensAll store tests leaves) :
      Flattens store test leaves

inductive FlattensAll (store : Store) : List Value → List Value → Prop where
  | nil : FlattensAll store [] []
  | cons {test : Value} {rest leaves others : List Value} (hfirst : Flattens store test leaves)
      (hrest : FlattensAll store rest others) : FlattensAll store (test :: rest) (leaves ++ others)

end

mutual

/-- Another test, in which some parts, or the whole, are replaced by the checks
    that they are converted to. -/
inductive Replaces (store : Store) : Value → Value → Prop where
  | same (test : Value) : Replaces store test test
  | converted {test : Value} {ref : Ref} {check : Check}
      (hcheck : store.get? ref = some (.check check))
      (hconvert : ∃ opened closed : World Unit, opened.store = store ∧
        Check.convert test opened = .ok check closed) :
      Replaces store test (.cell ref)
  | members {test other : Value} {tests others : List Value}
      (hread : Check.read store test = .members tests)
      (hother : Check.read store other = .members others)
      (hall : ReplacesAll store tests others) : Replaces store test other

inductive ReplacesAll (store : Store) : List Value → List Value → Prop where
  | nil : ReplacesAll store [] []
  | cons {test other : Value} {tests others : List Value} (hfirst : Replaces store test other)
      (hrest : ReplacesAll store tests others) :
      ReplacesAll store (test :: tests) (other :: others)

end

/-- One test is a member of another. -/
def Holding (store : Store) (member test : Value) : Prop :=
  ∃ tests, Check.read store test = .members tests ∧ member ∈ tests

end Store

variable {σ : Type}

/-- The world once a leaf of a test is converted: an unsupported one is reported. -/
def World.noting (world : World σ) (leaf : Value) : World σ :=
  match Check.read world.store leaf with
  | .unsupported =>
    world.told ("Unsupported test " ++ world.store.shown leaf ++ "; it will match nothing")
  | _ => world

/-- Why a leaf of a test cannot be converted, if it cannot: an unsupported value is
    written into a message. -/
def Check.unreportable? (store : Store) (leaf : Value) : Option Fault :=
  match Check.read store leaf with
  | .unsupported => store.unwritable? leaf
  | _ => none

/-- What converting a test with these leaves comes to. It makes the checks of the
    leaves, or it fails at the first leaf that cannot be reported. -/
inductive Converts {α : Type} (made : α → List Check) (leaves : List Value) (world : World σ) :
    EStateM.Result Fault (World σ) α → Prop where
  | ok {checks : α} (hreport : ∀ leaf ∈ leaves, Check.unreportable? world.store leaf = none)
      (hmade : made checks = leaves.flatMap (Check.ofLeaf world.store)) :
      Converts made leaves world (.ok checks (leaves.foldl World.noting world))
  | error {above below : List Value} {leaf : Value} {fault : Fault}
      (hleaves : leaves = above ++ leaf :: below)
      (habove : ∀ other ∈ above, Check.unreportable? world.store other = none)
      (hleaf : Check.unreportable? world.store leaf = some fault) :
      Converts made leaves world (.error fault (above.foldl World.noting world))

/-- Some checks are put to a node one after the other until one of them is
    passed or fails. -/
inductive Scans (host : Host σ) (place : Place) :
    List Check → World σ → EStateM.Result Fault (World σ) Bool → Prop where
  | exhausted (world : World σ) : Scans host place [] world (.ok false world)
  | passed {check : Check} {rest : List Check} {world later : World σ}
      (htest : check.test host place world = .ok true later) :
      Scans host place (check :: rest) world (.ok true later)
  | failed {check : Check} {rest : List Check} {world later : World σ} {fault : Fault}
      (htest : check.test host place world = .error fault later) :
      Scans host place (check :: rest) world (.error fault later)
  | rejected {check : Check} {rest : List Check} {world later : World σ}
      {result : EStateM.Result Fault (World σ) Bool}
      (htest : check.test host place world = .ok false later)
      (hrest : Scans host place rest later result) : Scans host place (check :: rest) world result

section Notes

variable (world : World σ)

@[simp] theorem noting_store (leaf : Value) : (world.noting leaf).store = world.store := by
  unfold World.noting
  split <;> rfl

@[simp] theorem noting_user (leaf : Value) : (world.noting leaf).user = world.user := by
  unfold World.noting
  split <;> rfl

theorem foldl_noting (leaves : List Value) :
    (leaves.foldl World.noting world).store = world.store ∧
      (leaves.foldl World.noting world).user = world.user := by
  induction leaves generalizing world with
  | nil => exact ⟨rfl, rfl⟩
  | cons leaf rest ih => simpa using ih (world.noting leaf)

end Notes

namespace Check

section Scanning

variable (host : Host σ) (place : Place)

/-- Trying some checks and then others is trying the ones before the others. -/
theorem testAny_append (first second : List Check) :
    testAny host place (first ++ second) = (do
      if ← testAny host place first then pure true else testAny host place second) := by
  funext world
  induction first generalizing world with
  | nil => rfl
  | cons check rest ih =>
    rw [List.cons_append, testAny, testAny]
    simp only [bind, EStateM.bind] at ih ⊢
    rcases check.test host place world with ⟨verdict, later⟩ | ⟨fault, later⟩
    · cases verdict with
      | true => rfl
      | false => exact ih later
    · rfl

theorem testAny_singleton (check : Check) :
    testAny host place [check] = check.test host place := by
  funext world
  rw [testAny]
  simp only [bind, EStateM.bind]
  rcases check.test host place world with ⟨verdict, later⟩ | ⟨fault, later⟩
  · cases verdict <;> rfl
  · rfl

mutual

/-- A check is passed if one of its leaves is, tried in their order. -/
theorem test_leaves : ∀ check : Check,
    check.test host place = testAny host place check.leaves
  | .anyOf checks => testAny_leavesOfAll checks
  | .anything | .nothing | .typeName _ | .properties _ | .pattern _ | .predicate _ | .abstract =>
    (testAny_singleton host place _).symm

theorem testAny_leavesOfAll : ∀ checks : List Check,
    testAny host place checks = testAny host place (leavesOfAll checks)
  | [] => rfl
  | check :: rest => by
    rw [testAny, leavesOfAll, testAny_append, test_leaves check, testAny_leavesOfAll rest]

end

theorem scans_testAny (checks : List Check) (world : World σ) :
    Scans host place checks world (testAny host place checks world) := by
  induction checks generalizing world with
  | nil => exact .exhausted world
  | cons check rest ih =>
    rw [testAny]
    simp only [bind, EStateM.bind]
    rcases htest : check.test host place world with ⟨verdict, later⟩ | ⟨fault, later⟩
    · cases verdict with
      | true => exact .passed htest
      | false => exact .rejected htest (ih later)
    · exact .failed htest

end Scanning

end Check

namespace Store

variable {store : Store}

theorem Flattens.of_plain {test : Value} {check : Check}
    (hread : Check.read store test = .plain check) : store.Flattens test [test] := by
  refine .leaf fun tests hother => ?_
  cases hread.symm.trans hother

theorem Flattens.of_unsupported {test : Value} (hread : Check.read store test = .unsupported) :
    store.Flattens test [test] := by
  refine .leaf fun tests hother => ?_
  cases hread.symm.trans hother

theorem exists_address_of_read {test : Value} {tests : List Value}
    (hread : Check.read store test = .members tests) :
    ∃ ref, test = .cell ref ∧ ref.address < store.size := by
  cases test with
  | scalar s => cases s <;> cases hread
  | function f => cases hread
  | cell ref =>
    refine ⟨ref, rfl, ?_⟩
    simp only [Check.read] at hread
    split at hread
    · cases hread
    · cases hread
    · cases hread
    · next hget => exact address_lt_of_get? hget
    · next hget => exact address_lt_of_get? hget
    · cases hread

mutual

/-- A test with leaves has no test nested in itself. -/
theorem Flattens.acc {test : Value} {leaves : List Value} :
    store.Flattens test leaves → Acc store.Holding test
  | .leaf hleaf => by
    refine .intro test fun member hmember => ?_
    obtain ⟨tests, hread, _⟩ := hmember
    exact (hleaf tests hread).elim
  | .members hread hall => by
    refine .intro test fun member hmember => ?_
    obtain ⟨tests, hother, hmem⟩ := hmember
    cases hread.symm.trans hother
    exact hall.acc member hmem

theorem FlattensAll.acc {tests leaves : List Value} :
    store.FlattensAll tests leaves → ∀ test ∈ tests, Acc store.Holding test
  | .nil => fun _ hmem => nomatch hmem
  | .cons hfirst hrest => by
    rw [List.forall_mem_cons]
    exact ⟨hfirst.acc, hrest.acc⟩

end

/-- Every test that is nested to a finite depth has leaves. -/
theorem exists_flattens {test : Value} (hacc : Acc store.Holding test) :
    ∃ leaves, store.Flattens test leaves := by
  induction hacc with
  | intro test _ ih =>
    cases hread : Check.read store test with
    | plain check => exact ⟨_, .of_plain hread⟩
    | unsupported => exact ⟨_, .of_unsupported hread⟩
    | members tests =>
      have hmembers : ∀ member ∈ tests, ∃ leaves, store.Flattens member leaves :=
        fun member hmem => ih member ⟨tests, hread, hmem⟩
      suffices hall : ∃ leaves, store.FlattensAll tests leaves by
        obtain ⟨leaves, hall⟩ := hall
        exact ⟨leaves, .members hread hall⟩
      clear hread ih
      induction tests with
      | nil => exact ⟨[], .nil⟩
      | cons member rest ih =>
        rw [List.forall_mem_cons] at hmembers
        obtain ⟨leaves, hfirst⟩ := hmembers.1
        obtain ⟨others, hrest⟩ := ih hmembers.2
        exact ⟨leaves ++ others, .cons hfirst hrest⟩

mutual

theorem Flattens.read_ne_members {test : Value} {leaves : List Value} :
    store.Flattens test leaves →
      ∀ leaf ∈ leaves, ∀ tests, Check.read store leaf ≠ .members tests
  | .leaf hleaf => List.forall_mem_singleton.mpr hleaf
  | .members _ hall => hall.read_ne_members

theorem FlattensAll.read_ne_members {tests leaves : List Value} :
    store.FlattensAll tests leaves →
      ∀ leaf ∈ leaves, ∀ tests, Check.read store leaf ≠ .members tests
  | .nil => fun _ hmem => nomatch hmem
  | .cons hfirst hrest =>
    List.forall_mem_append.mpr ⟨hfirst.read_ne_members, hrest.read_ne_members⟩

end

mutual

/-- A test has its leaves in one order only. -/
theorem Flattens.unique {test : Value} {leaves others : List Value} :
    store.Flattens test leaves → store.Flattens test others → leaves = others
  | .leaf _, .leaf _ => rfl
  | .leaf hleaf, .members hread _ => (hleaf _ hread).elim
  | .members hread _, .leaf hleaf => (hleaf _ hread).elim
  | .members hread hall, .members hagain hother => by
    cases hread.symm.trans hagain
    exact hall.unique hother

theorem FlattensAll.unique {tests leaves others : List Value} :
    store.FlattensAll tests leaves → store.FlattensAll tests others → leaves = others
  | .nil, .nil => rfl
  | .cons hfirst hrest, .cons hother hothers => by
    rw [hfirst.unique hother, hrest.unique hothers]

end

theorem not_holding_self {test : Value} (hacc : Acc store.Holding test) :
    ¬ Relation.TransGen store.Holding test test := by
  induction hacc.transGen with
  | intro test _ ih =>
    intro hself
    exact ih test hself (hacc.inv_of_transGen hself) hself

/-- Lists and tuples that hold a test, however deep, all of them different. -/
structure Above (store : Store) (path : List Ref) (test : Value) : Prop where
  nodup : path.Nodup
  held : ∀ ref ∈ path, ref.address < store.size
  holding : ∀ ref ∈ path, Relation.TransGen store.Holding test (.cell ref)

theorem Above.length_le {path : List Ref} {test : Value} (habove : store.Above path test) :
    path.length ≤ store.size :=
  length_le_size habove.nodup habove.held

theorem Above.exists_cons {path : List Ref} {test : Value} {tests : List Value}
    (habove : store.Above path test) (hacc : Acc store.Holding test)
    (hread : Check.read store test = .members tests) :
    ∃ ref, ∀ member ∈ tests, store.Above (ref :: path) member := by
  obtain ⟨ref, rfl, hheld⟩ := exists_address_of_read hread
  have hdistinct : (ref :: path).Nodup := by
    refine List.nodup_cons.mpr ⟨?_, habove.nodup⟩
    intro hmem
    exact not_holding_self hacc (habove.holding ref hmem)
  refine ⟨ref, fun member hmember => ⟨hdistinct, ?_, ?_⟩⟩
  · exact List.forall_mem_cons.mpr ⟨hheld, habove.held⟩
  · have hholding : store.Holding member (.cell ref) := ⟨tests, hread, hmember⟩
    refine List.forall_mem_cons.mpr ⟨.single hholding, ?_⟩
    intro other hother
    exact .head hholding (habove.holding other hother)

end Store

section Conversion

variable {store : Store}

/-- A leaf of a test is converted to a check of its own, or cannot be reported. -/
theorem Check.convertAt_leaf {fuel : Nat} {leaf : Value} (world : World σ)
    (hleaf : ∀ tests, Check.read world.store leaf ≠ .members tests) :
    Converts Check.leaves [leaf] world (Check.convertAt (fuel + 1) leaf world) := by
  have hreports : Check.unreportable? world.store leaf = none → ∀ check : Check,
      check.leaves = Check.ofLeaf world.store leaf →
      Converts Check.leaves [leaf] world (.ok check (world.noting leaf)) := by
    intro hnone check hcheck
    exact .ok (List.forall_mem_singleton.mpr hnone) (by rw [hcheck, List.flatMap_singleton])
  cases hread : Check.read world.store leaf with
  | members tests => exact (hleaf tests hread).elim
  | plain check =>
    have hconverted : Check.convertAt (fuel + 1) leaf world = .ok check (world.noting leaf) := by
      simp only [Check.convertAt, Act.store, bind, EStateM.bind, World.noting, hread]
      rfl
    rw [hconverted]
    exact hreports (by simp only [unreportable?, hread]) check (by simp only [ofLeaf, hread])
  | unsupported =>
    cases hwritten : world.store.unwritable? leaf with
    | none =>
      have hconverted : Check.convertAt (fuel + 1) leaf world = .ok .nothing (world.noting leaf) := by
        simp only [Check.convertAt, Act.store, bind, EStateM.bind, World.noting, hread, Store.write,
          hwritten]
        rfl
      rw [hconverted]
      exact hreports (by simp only [unreportable?, hread, hwritten]) .nothing
        (by simp only [ofLeaf, hread]; rfl)
    | some fault =>
      have hrefused : Check.convertAt (fuel + 1) leaf world = .error fault world := by
        simp only [Check.convertAt, Act.store, bind, EStateM.bind, hread, Store.write, hwritten]
        rfl
      rw [hrefused]
      exact @Converts.error _ _ _ _ world [] [] leaf fault rfl (by simp)
        (by simp only [unreportable?, hread, hwritten])

/-- Conversion is over with the first leaves that cannot be reported. -/
theorem Converts.cons {leaves others : List Value} {world : World σ} {test : Value}
    {tests : List Value} {convert : Value → Act σ Check}
    (hfirst : Converts Check.leaves leaves world (convert test world))
    (hrest : ∀ later : World σ, later.store = world.store →
      Converts Check.leavesOfAll others later (Check.convertAll convert tests later)) :
    Converts Check.leavesOfAll (leaves ++ others) world
      (Check.convertAll convert (test :: tests) world) := by
  rcases hone : convert test world with ⟨check, later⟩ | ⟨fault, later⟩
  · have hmore : Check.convertAll convert (test :: tests) world =
        (Check.convertAll convert tests >>= fun checks => pure (check :: checks)) later := by
      simp only [Check.convertAll, bind, EStateM.bind, hone]
    rw [hone] at hfirst
    rw [hmore]
    cases hfirst with
    | ok hreport hmade =>
      have hstore := (foldl_noting world leaves).1
      have hlater := hrest _ hstore
      simp only [bind, EStateM.bind]
      generalize Check.convertAll convert tests (leaves.foldl World.noting world) = result at hlater ⊢
      cases hlater with
      | @ok checks hothers hmore =>
        rw [hstore] at hothers hmore
        show Converts _ _ _ (.ok (check :: checks) _)
        have hall : Check.leavesOfAll (check :: checks) =
            (leaves ++ others).flatMap (Check.ofLeaf world.store) := by
          rw [Check.leavesOfAll, hmade, hmore, List.flatMap_append]
        rw [← List.foldl_append]
        exact .ok (List.forall_mem_append.mpr ⟨hreport, hothers⟩) hall
      | @error above below leaf fault hleaves habove hleaf =>
        rw [hstore] at habove hleaf
        show Converts _ _ _ (.error fault _)
        rw [← List.foldl_append]
        exact @Converts.error _ _ _ _ world (leaves ++ above) below leaf fault (by simp [hleaves])
          (List.forall_mem_append.mpr ⟨hreport, habove⟩) hleaf
  · have hfails : Check.convertAll convert (test :: tests) world = .error fault later := by
      simp only [Check.convertAll, bind, EStateM.bind, hone]
    rw [hone] at hfirst
    rw [hfails]
    cases hfirst with
    | @error above below leaf _ hleaves habove hleaf =>
      exact @Converts.error _ _ _ _ world above (below ++ others) leaf fault (by simp [hleaves])
        habove hleaf

namespace Store

mutual

/-- Conversion reaches every leaf of a test within the depth it allows: the
    tests on the way down are different, so there are no more than cells. -/
theorem Flattens.convertAt {fuel : Nat} {path : List Ref} {test : Value} {leaves : List Value}
    (hflattens : store.Flattens test leaves) (habove : store.Above path test)
    (hfuel : store.size < path.length + fuel) (world : World σ) (hstore : world.store = store) :
    Converts Check.leaves leaves world (Check.convertAt fuel test world) := by
  have hlength := habove.length_le
  match fuel, hflattens with
  | 0, _ => omega
  | _ + 1, .leaf hleaf => exact Check.convertAt_leaf world (by rwa [hstore])
  | fuel + 1, .members hread hall =>
    obtain ⟨ref, hmembers⟩ := habove.exists_cons hflattens.acc hread
    have hless : store.size < (ref :: path).length + fuel := by
      simp only [List.length_cons]
      omega
    have hchecks := hall.convertAll hmembers hless world hstore
    simp only [Check.convertAt, Act.store, bind, EStateM.bind, hstore, hread]
    generalize Check.convertAll (Check.convertAt fuel) _ world = result at hchecks ⊢
    cases hchecks with
    | @ok checks hreport hmade =>
      exact @Converts.ok _ _ Check.leaves _ world (.anyOf checks) hreport hmade
    | error hleaves habove hleaf => exact .error hleaves habove hleaf

theorem FlattensAll.convertAll {fuel : Nat} {path : List Ref} {tests leaves : List Value}
    (hflattens : store.FlattensAll tests leaves) (habove : ∀ test ∈ tests, store.Above path test)
    (hfuel : store.size < path.length + fuel) (world : World σ) (hstore : world.store = store) :
    Converts Check.leavesOfAll leaves world
      (Check.convertAll (Check.convertAt fuel) tests world) := by
  match hflattens with
  | .nil => exact @Converts.ok _ _ _ [] world [] (by simp) rfl
  | .cons hfirst hrest =>
    rw [List.forall_mem_cons] at habove
    exact (hfirst.convertAt habove.1 hfuel world hstore).cons fun later hlater =>
      hrest.convertAll habove.2 hfuel later (hlater.trans hstore)

end

/-- A test with leaves is converted to a check with the checks of these leaves. -/
theorem Flattens.convert {test : Value} {leaves : List Value} (world : World σ)
    (hflattens : world.store.Flattens test leaves) :
    Converts Check.leaves leaves world (Check.convert test world) := by
  have habove : world.store.Above [] test := ⟨List.nodup_nil, by simp, by simp⟩
  exact hflattens.convertAt habove (by simp) world rfl

/-- A test that is converted has the checks of its leaves, all of which can be
    reported. -/
theorem Flattens.leaves_of_convert {test : Value} {leaves : List Value} {check : Check}
    {world later : World σ} (hflattens : world.store.Flattens test leaves)
    (hconvert : Check.convert test world = .ok check later) :
    (∀ leaf ∈ leaves, Check.unreportable? world.store leaf = none) ∧
      check.leaves = leaves.flatMap (Check.ofLeaf world.store) ∧
      later = leaves.foldl World.noting world := by
  have hconverts := hflattens.convert world
  rw [hconvert] at hconverts
  cases hconverts with
  | ok hreport hmade => exact ⟨hreport, hmade, rfl⟩

mutual

/-- A test with converted parts has the checks of the test before, and the same
    leaf that cannot be reported comes first, if one does. -/
theorem Replaces.flattens {test other : Value} {leaves : List Value}
    (hreplaces : store.Replaces test other) (hflattens : store.Flattens test leaves) :
    ∃ others, store.Flattens other others ∧
      others.flatMap (Check.ofLeaf store) = leaves.flatMap (Check.ofLeaf store) ∧
      others.findSome? (Check.unreportable? store) = leaves.findSome? (Check.unreportable? store) := by
  match hreplaces with
  | .same test => exact ⟨leaves, hflattens, rfl, rfl⟩
  | @Replaces.converted _ _ ref check hcheck hconvert =>
    obtain ⟨opened, closed, rfl, hconverted⟩ := hconvert
    obtain ⟨hreport, hleaves, _⟩ := hflattens.leaves_of_convert hconverted
    have hread : Check.read opened.store (.cell ref) = .plain check := by
      simp only [Check.read, hcheck]
    refine ⟨[.cell ref], .of_plain hread, ?_, ?_⟩
    · rw [List.flatMap_singleton, ← hleaves, Check.ofLeaf, hread]
    · rw [List.findSome?_eq_none_iff.mpr hreport, List.findSome?_eq_none_iff]
      exact List.forall_mem_singleton.mpr (by simp only [Check.unreportable?, hread])
  | .members hread hother hall =>
    match hflattens with
    | .leaf hleaf => exact (hleaf _ hread).elim
    | .members hagain hmembers =>
      cases hread.symm.trans hagain
      obtain ⟨others, hflat, hsame, hfirst⟩ := hall.flattens hmembers
      exact ⟨others, .members hother hflat, hsame, hfirst⟩

theorem ReplacesAll.flattens {tests others : List Value} {leaves : List Value}
    (hreplaces : store.ReplacesAll tests others) (hflattens : store.FlattensAll tests leaves) :
    ∃ found, store.FlattensAll others found ∧
      found.flatMap (Check.ofLeaf store) = leaves.flatMap (Check.ofLeaf store) ∧
      found.findSome? (Check.unreportable? store) = leaves.findSome? (Check.unreportable? store) := by
  match hreplaces, hflattens with
  | .nil, .nil => exact ⟨[], .nil, rfl, rfl⟩
  | .cons hone hmore, .cons hfirst hrest =>
    obtain ⟨mine, hmine, hhead, hheadFirst⟩ := hone.flattens hfirst
    obtain ⟨rest, hothers, htail, htailFirst⟩ := hmore.flattens hrest
    refine ⟨mine ++ rest, .cons hmine hothers, ?_, ?_⟩
    · rw [List.flatMap_append, List.flatMap_append, hhead, htail]
    · rw [List.findSome?_append, List.findSome?_append, hheadFirst, htailFirst]

end

end Store

end Conversion

/-- Two worlds that differ in their journals only. -/
def World.SameState (first second : World σ) : Prop :=
  first.store = second.store ∧ first.user = second.user

section Journals

variable (host : Host σ) (place : Place)

mutual

/-- A check is put to a node alike whatever the journal says. -/
theorem Check.test_sameState (check : Check) {first second : World σ} (hstate : first.SameState second) :
    Abreast World.SameState Eq Eq (check.test host place first) (check.test host place second) := by
  obtain ⟨store, journal, user⟩ := first
  obtain ⟨_, other, _⟩ := second
  obtain ⟨rfl, rfl⟩ := hstate
  match check with
  | .anything | .nothing => exact .ok rfl ⟨rfl, rfl⟩
  | .typeName name =>
    simp only [test, Act.store, bind, EStateM.bind]
    cases store.equal (store.typeOf place.node) (.scalar name) with
    | ok verdict => exact .ok rfl ⟨rfl, rfl⟩
    | error fault => exact .error rfl ⟨rfl, rfl⟩
  | .properties fields =>
    simp only [test, Act.store, bind, EStateM.bind]
    cases hasAll store place.node fields with
    | ok verdict => exact .ok rfl ⟨rfl, rfl⟩
    | error fault => exact .error rfl ⟨rfl, rfl⟩
  | .pattern entries =>
    simp only [test, Act.store, bind, EStateM.bind]
    cases hasEntries store place.node entries with
    | ok verdict => exact .ok rfl ⟨rfl, rfl⟩
    | error fault => exact .error rfl ⟨rfl, rfl⟩
  | .predicate function =>
    simp only [test, Act.call, Act.store, bind, EStateM.bind]
    rcases host function (.atPlace place) (store, user) with ⟨answer, later⟩ | ⟨fault, later⟩
    · exact .ok rfl ⟨rfl, rfl⟩
    · exact .error rfl ⟨rfl, rfl⟩
  | .anyOf checks => exact testAny_sameState checks ⟨rfl, rfl⟩
  | .abstract => exact .error rfl ⟨rfl, rfl⟩

theorem Check.testAny_sameState (checks : List Check) {first second : World σ}
    (hstate : first.SameState second) :
    Abreast World.SameState Eq Eq (testAny host place checks first)
      (testAny host place checks second) := by
  match checks with
  | [] => exact .ok rfl hstate
  | check :: rest =>
    have htest := test_sameState check hstate
    rw [testAny]
    simp only [bind, EStateM.bind]
    generalize check.test host place first = mine at htest ⊢
    generalize check.test host place second = other at htest ⊢
    cases htest with
    | error hfaults hworlds => exact .error hfaults hworlds
    | @ok verdict _ _ _ hresults hworlds =>
      subst hresults
      cases verdict with
      | true => exact .ok rfl hworlds
      | false => exact testAny_sameState rest hworlds

end

end Journals

section Matching

variable (host : Host σ) (place : Place)

/-- Matching a test is trying the checks of its leaves, or it fails at the first
    leaf that cannot be reported, before any of them is tried. -/
theorem Check.isMatch_cases {test : Value} {leaves : List Value} {world : World σ}
    (hflattens : world.store.Flattens test leaves) :
    ((∀ leaf ∈ leaves, unreportable? world.store leaf = none) ∧
      isMatch host place test world =
        testAny host place (leaves.flatMap (ofLeaf world.store)) (leaves.foldl World.noting world)) ∨
    ∃ above leaf below fault, leaves = above ++ leaf :: below ∧
      (∀ other ∈ above, unreportable? world.store other = none) ∧
      unreportable? world.store leaf = some fault ∧
      isMatch host place test world = .error fault (above.foldl World.noting world) := by
  have hconverts := hflattens.convert world
  simp only [isMatch, bind, EStateM.bind]
  generalize convert test world = result at hconverts ⊢
  cases hconverts with
  | ok hreport hmade =>
    refine .inl ⟨hreport, ?_⟩
    dsimp only
    rw [test_leaves, hmade]
  | error hleaves habove hleaf => exact .inr ⟨_, _, _, _, hleaves, habove, hleaf, rfl⟩

/-- Tests with the same checks for leaves, and the same one that cannot be
    reported first, are matched alike. -/
theorem Check.isMatch_sameState {test other : Value} {leaves others : List Value} {world : World σ}
    (hflattens : world.store.Flattens test leaves) (hothers : world.store.Flattens other others)
    (hsame : others.flatMap (ofLeaf world.store) = leaves.flatMap (ofLeaf world.store))
    (hfirst : others.findSome? (unreportable? world.store) =
      leaves.findSome? (unreportable? world.store)) :
    Abreast World.SameState Eq Eq (isMatch host place test world)
      (isMatch host place other world) := by
  have hstates : ∀ first second : List Value, (first.foldl World.noting world).SameState
      (second.foldl World.noting world) := by
    intro first second
    obtain ⟨hstore, huser⟩ := foldl_noting world first
    obtain ⟨hother, hcalls⟩ := foldl_noting world second
    exact ⟨hstore.trans hother.symm, huser.trans hcalls.symm⟩
  have hfound : ∀ {above below : List Value} {leaf : Value} {fault : Fault},
      (∀ other ∈ above, unreportable? world.store other = none) →
      unreportable? world.store leaf = some fault →
      (above ++ leaf :: below).findSome? (unreportable? world.store) = some fault := by
    intro above below leaf fault habove hleaf
    rw [List.findSome?_append, List.findSome?_eq_none_iff.mpr habove, Option.none_or,
      List.findSome?_cons, hleaf]
  rcases isMatch_cases host place hflattens with
    ⟨hreport, hmatch⟩ | ⟨above, leaf, below, fault, rfl, habove, hleaf, hmatch⟩
  · rcases isMatch_cases host place hothers with
      ⟨_, hagain⟩ | ⟨_, _, _, _, rfl, habove, hleaf, _⟩
    · rw [hmatch, hagain, hsame]
      exact testAny_sameState host place _ (hstates _ _)
    · rw [hfound habove hleaf, List.findSome?_eq_none_iff.mpr hreport] at hfirst
      cases hfirst
  · rcases isMatch_cases host place hothers with
      ⟨hreport, _⟩ | ⟨_, _, _, _, rfl, hnone, hother, hagain⟩
    · rw [hfound habove hleaf, List.findSome?_eq_none_iff.mpr hreport] at hfirst
      cases hfirst
    · rw [hfound habove hleaf, hfound hnone hother] at hfirst
      rw [hmatch, hagain]
      exact .error (Option.some.inj hfirst).symm (hstates _ _)

end Matching

section Nested

/-- A nested test: one of a type, of a list with a function, an unsupported
    value and no tests, of a converted check and of anything. It stands at the
    address 4, and at 6 with a check in place of the list. -/
def nestedTest : Store :=
  ⟨#[.mapping [("type", .text "paragraph")],
    .list [],
    .list [.function 0, .int 5, .cell ⟨1⟩],
    .check (.anyOf [.predicate 1, .predicate 2]),
    .tuple [.text "heading", .cell ⟨2⟩, .cell ⟨3⟩, .null],
    .check (.anyOf [.predicate 0, .nothing, .anyOf []]),
    .tuple [.text "heading", .cell ⟨5⟩, .cell ⟨3⟩, .null]]⟩

/-- Functions that tell in which order they are called; all but the first pass
    every node. -/
def tellingOrder : Host (List Nat) := fun function _ (store, calls) =>
  .ok (.bool (function != 0)) (store, calls ++ [function])

theorem nestedTest_flattens :
    nestedTest.Flattens (.cell ⟨4⟩) [.text "heading", .function 0, .int 5, .cell ⟨3⟩, .null] := by
  have hempty : nestedTest.Flattens (.cell ⟨1⟩) [] := .members rfl .nil
  have hinner : nestedTest.Flattens (.cell ⟨2⟩) [.function 0, .int 5] :=
    .members rfl (.cons (.of_plain rfl) (.cons (.of_unsupported rfl) (.cons hempty .nil)))
  exact .members rfl (.cons (.of_plain rfl) (.cons hinner
    (.cons (.of_plain rfl) (.cons (.of_plain rfl) .nil))))

theorem nestedTest_replaces : nestedTest.Replaces (.cell ⟨4⟩) (.cell ⟨6⟩) := by
  have hinner : nestedTest.Replaces (.cell ⟨2⟩) (.cell ⟨5⟩) :=
    .converted rfl ⟨⟨nestedTest, [], ()⟩, _, rfl, rfl⟩
  exact .members rfl rfl (.cons (.same _) (.cons hinner (.cons (.same _) (.cons (.same _) .nil))))

end Nested

section Unreportable

/-- A node and a test of its type and of an integer, which is no test. -/
def overfullTest (n : Nat) : Store :=
  ⟨#[.mapping [("type", .text "a")], .list [.text "a", .int n]]⟩

theorem overfullTest_flattens (n : Nat) :
    (overfullTest n).Flattens (.cell ⟨1⟩) [.text "a", .int n] :=
  .members rfl (.cons (.of_plain rfl) (.cons (.of_unsupported rfl) .nil))

end Unreportable

end Lineage
