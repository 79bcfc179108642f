import Lineage.Proofs.Store.PlainData
import Lineage.Proofs.Walk.Completion
import Lineage.Proofs.Walk.Consultation

namespace Lineage

section Verdict

/-- A check decides on data by what the data is: it changes nothing, and it
    comes to the same verdict whoever asks, wherever the node is met and however
    the store has grown. -/
def Check.Impartial (check : Check) : Prop :=
  ∀ (store : Store) (node : Value), store.IsData node → store.HasData node →
    ∃ verdict, ∀ (σ : Type) (host : Host σ) (place : Place) (world : World σ),
      place.node = node → store.Extends world.store →
        check.test host place world = .ok verdict world

/-- A check is what a test in a store is converted to, for anyone. -/
def Check.Reads (check : Check) (store : Store) (test : Value) : Prop :=
  ∀ (σ : Type) (journal : List Entry) (user : σ),
    Check.convert test ⟨store, journal, user⟩ = .ok check ⟨store, journal, user⟩

namespace Store

variable {store later : Store} {node actual : Value}

theorem HasData.extend (hhas : store.HasData node) (hdata : store.IsData node)
    (hextends : store.Extends later) : later.HasData node := by
  intro key actual hproperty
  rw [hdata.property?_eq hextends] at hproperty
  exact (hhas key actual hproperty).extend hextends

theorem agrees_scalar_eq (hdata : store.IsData actual) (hextends : store.Extends later)
    (scalar : Scalar) :
    later.agrees actual (.scalar scalar) = store.agrees actual (.scalar scalar) := by
  have hscalar : later.kind (.scalar scalar) = store.kind (.scalar scalar) := rfl
  rw [agrees, agrees, equal_scalar hdata, equal_scalar (hdata.extend hextends),
    hdata.kind_eq hextends, hscalar]

/-- Data has the properties that it had when the store was smaller. -/
theorem has_iff (hdata : store.IsData node) (hhas : store.HasData node)
    (hextends : store.Extends later) (key : String) (scalar : Scalar) :
    later.Has node key scalar ↔ store.Has node key scalar := by
  unfold Has
  rw [hdata.property?_eq hextends]
  constructor
  · rintro ⟨actual, hproperty, hagrees⟩
    rw [agrees_scalar_eq (hhas key actual hproperty) hextends] at hagrees
    exact ⟨actual, hproperty, hagrees⟩
  · rintro ⟨actual, hproperty, hagrees⟩
    rw [← agrees_scalar_eq (hhas key actual hproperty) hextends] at hagrees
    exact ⟨actual, hproperty, hagrees⟩

end Store

theorem Selector.checkOfClauses_impartial (clauses : List (Selector.Clause Scalar)) :
    (Selector.checkOfClauses clauses).Impartial := by
  intro store node hdata hhas
  classical
  refine ⟨decide (∃ clause ∈ clauses, clause.Holds store node), ?_⟩
  rintro σ host place world rfl hextends
  obtain ⟨verdict, htest, hiff⟩ :=
    @Selector.test_checkOfClauses σ host place world (hhas.extend hdata hextends) clauses
  have hholds : ∀ clause : Selector.Clause Scalar,
      clause.Holds world.store place.node ↔ clause.Holds store place.node := by
    intro clause
    simp only [Selector.Clause.Holds, Store.has_iff hdata hhas hextends]
  simp only [hholds] at hiff
  rw [htest, Bool.eq_iff_iff.mpr (hiff.trans decide_eq_true_iff.symm)]

/-- The test of a selector, or none, is read as an impartial check. -/
theorem exists_impartial {test : Datum}
    (htest : test = .null ∨ ∃ selector, Selector.parse selector = .ok test) (holding : Store) :
    ∃ check : Check, check.Impartial ∧
      check.Reads (test.build holding).2 (test.build holding).1 := by
  rcases htest with rfl | ⟨selector, hparse⟩
  · exact ⟨.anything, fun _ _ _ _ => ⟨true, fun _ _ _ _ _ _ => rfl⟩, fun _ _ _ => rfl⟩
  · obtain ⟨clauses, _, rfl⟩ := Selector.writes_of_parse hparse
    exact ⟨_, Selector.checkOfClauses_impartial clauses, fun _ _ _ => Selector.convert_test rfl⟩

end Verdict

variable {σ : Type}

/-- A function of the caller that only watches: it leaves what it is shown as it
    is, and its answers ask for nothing. -/
def Watches (host : Host σ) (function : Nat) : Prop :=
  ∀ call store user answer later next, host function call (store, user) = .ok answer (later, next) →
    store.Extends later ∧ (Directive.read later answer).getD {} = {}

namespace Collect

/-- The finding on a node whose label can be made. -/
def findingOn (store : Store) (node : Value) (lineage : List Value) : Finding :=
  { type := store.toDatum (store.typeOf node)
    depth := lineage.length
    path := lineage.reverse.map fun ancestor => store.toDatum (store.typeOf ancestor)
    label := store.toDatum (store.label node) }

theorem findingOf_of_describes {store : Store} {node : Value} (hlabel : store.Describes node)
    (lineage : List Value) : findingOf store node lineage = .ok (findingOn store node lineage) := by
  rw [findingOf, hlabel]
  rfl

/-- A depth that is not beyond the limit, if there is one. -/
def isWithin (maxDepth : Option Nat) (depth : Nat) : Bool :=
  maxDepth.all (depth ≤ ·)

/-- The visits of nodes that have no more ancestors than the limit. -/
def within (maxDepth : Option Nat) (visits : List (Place × List Value)) :
    List (Place × List Value) :=
  visits.filter fun visit => isWithin maxDepth visit.2.length

/-- The findings on the visits that are not beyond the limit. -/
def findingsOn (store : Store) (maxDepth : Option Nat) (visits : List (Place × List Value)) :
    List Finding :=
  (within maxDepth visits).map fun visit => findingOn store visit.1.node visit.2

section Findings

variable {store : Store} {maxDepth : Option Nat} {visits more : List (Place × List Value)}
  {depth : Nat}

theorem findingsOn_append :
    findingsOn store maxDepth (visits ++ more) =
      findingsOn store maxDepth visits ++ findingsOn store maxDepth more := by
  simp [findingsOn, within]

theorem isWithin_deeper {deeper : Nat} (hdeepest : isDeepest maxDepth depth = true)
    (hdeeper : depth + 1 ≤ deeper) : isWithin maxDepth deeper = false := by
  cases maxDepth with
  | none => cases hdeepest
  | some limit =>
    have hlimit : limit ≤ depth := by simpa [isDeepest] using hdeepest
    simp only [isWithin, Option.all_some, decide_eq_false_iff_not]
    omega

theorem isWithin_succ (hwithin : isWithin maxDepth depth = true)
    (hdeepest : isDeepest maxDepth depth = false) : isWithin maxDepth (depth + 1) = true := by
  cases maxDepth with
  | none => rfl
  | some limit =>
    simp only [isWithin, Option.all_some, decide_eq_true_eq, isDeepest, decide_eq_false_iff_not]
      at hwithin hdeepest ⊢
    omega

end Findings

section Node

variable {check : Check} {config : Config} {place : Place} {lineage : List Value}
  {world : World (List Finding)} {verdict : Bool}

/-- What collecting does at a node: it keeps a finding if the node passes, and
    leaves out what is below if the node is at the limit. It fails at a node that
    passes and of which no label can be made. -/
theorem one_walker
    (hverdict : ∀ (place' : Place) (other : World (List Finding)), place'.node = place.node →
      other.store = world.store → check.test noHost place' other = .ok verdict other) :
    (verdict = true → world.store.Describes place.node) ∧
      (walker check config).one place lineage world =
        .ok (if isDeepest config.maxDepth lineage.length then .skip else {})
          ⟨world.store, .visited place lineage :: .offered place :: world.journal,
            (if verdict then [findingOn world.store place.node lineage] else []) ++ world.user⟩ ∨
    (verdict = true ∧ ¬world.store.Describes place.node) ∧
      ∃ fault later, (walker check config).one place lineage world = .error fault later := by
  let told : World (List Finding) :=
    ⟨world.store, .visited place lineage :: .offered place :: world.journal, world.user⟩
  have htest := hverdict ⟨place.node, .null, (lineage.head?).getD .null⟩ told rfl rfl
  by_cases hlabel : verdict = true → world.store.Describes place.node
  · refine .inl ⟨hlabel, ?_⟩
    have hinspect : inspect check config.maxDepth place lineage told =
        .ok (if isDeepest config.maxDepth lineage.length then .action .skip else .null)
          ⟨world.store, told.journal,
            (if verdict then [findingOn world.store place.node lineage] else []) ++
              world.user⟩ := by
      unfold inspect
      simp only [bind, EStateM.bind, htest]
      cases verdict with
      | false => rfl
      | true =>
        simp only [if_true, Act.store, Act.ofExcept, EStateM.bind, told,
          findingOf_of_describes (hlabel rfl)]
        rfl
    apply Walker.one_of_consult
    have hconsult := @Walker.consult_called _ (walker check config) place lineage world
      ⟨world.store, .offered place :: world.journal, world.user⟩ _ _ rfl hinspect
    rw [hconsult]
    cases isDeepest config.maxDepth lineage.length <;> rfl
  · obtain ⟨hpasses, hunmade⟩ := Classical.not_imp.mp hlabel
    subst hpasses
    obtain ⟨fault, hfails⟩ := (world.store.describes_or_fails place.node).resolve_left hunmade
    have hfinding : findingOf world.store place.node lineage = .error fault := by
      rw [findingOf, hfails]
      rfl
    have hinspect : inspect check config.maxDepth place lineage told = .error fault told := by
      unfold inspect
      simp only [bind, EStateM.bind, htest, if_true, Act.store, Act.ofExcept, told, hfinding]
    have hraises : (walker check config).Raises place lineage world fault told := .visit rfl hinspect
    exact .inr ⟨⟨rfl, hunmade⟩, _, _, hraises.one_fails⟩

end Node

/-- What collecting comes to in a part of a walk that makes some visits: it has
    the findings on those that are not beyond the limit, or it fails at one of
    them of which no label can be made. -/
inductive Collects {α : Type} (base : Store) (maxDepth : Option Nat)
    (visits : List (Place × List Value)) (mine : World (List Finding)) (a : α) :
    EStateM.Result Halt (World (List Finding)) α → Prop where
  | found (hlabels : ∀ visit ∈ visits, isWithin maxDepth visit.2.length = true →
        base.Describes visit.1.node) (journal : List Entry) :
      Collects base maxDepth visits mine a
        (.ok a ⟨base, journal, findingsOn base maxDepth visits ++ mine.user⟩)
  | failed {visit : Place × List Value} (hvisit : visit ∈ visits)
      (hwithin : isWithin maxDepth visit.2.length = true) (hlabel : ¬base.Describes visit.1.node)
      (fault : Fault) (later : World (List Finding)) :
      Collects base maxDepth visits mine a (.error (.failed fault) later)

/-- A part of a direct walk and the same part of collecting: if the first comes
    to `a`, it made visits at the depth of the lineage or below, and the second,
    unless it is beyond the limit, collects from them. The direct walk does not
    exit, and nothing is said if it fails. -/
def Gathers {α : Type} (base : Store) (maxDepth : Option Nat) (lineage : List Value)
    (world : World σ) (mine : World (List Finding)) (a : α)
    (collected : EStateM.Result Halt (World (List Finding)) α) :
    EStateM.Result Halt (World σ) α → Prop
  | .ok b later => b = a ∧ base.Extends later.store ∧ ∃ visits,
      visitsOf later.journal = visits ++ visitsOf world.journal ∧
      (∀ visit ∈ visits, lineage.length ≤ visit.2.length) ∧
      (isWithin maxDepth lineage.length = true →
        Collects base maxDepth visits mine a collected)
  | .error (.exited _) _ => False
  | .error _ _ => True

section Gathering

variable {α β : Type} {base : Store} {maxDepth : Option Nat} {lineage : List Value}
  {world : World σ} {mine : World (List Finding)}

/-- Collecting in two parts, one after the other: what the second comes to from
    where the first is over settles what both come to. -/
theorem Collects.exists_after {part : Visiting (List Finding) α}
    (next : α → Visiting (List Finding) β) (b : β) {visits : List (Place × List Value)} {a : α}
    (hmine : mine.store = base) (hpart : Collects base maxDepth visits mine a (part mine)) :
    ∃ after : World (List Finding), after.store = base ∧ ∀ more,
      Collects base maxDepth more after b (next a after) →
        Collects base maxDepth (more ++ visits) mine b ((part >>= next) mine) := by
  show ∃ after : World (List Finding), after.store = base ∧ ∀ more, _ →
    Collects base maxDepth (more ++ visits) mine b (EStateM.bind part next mine)
  unfold EStateM.bind
  generalize part mine = result at hpart
  cases hpart with
  | found hlabels journal =>
    refine ⟨⟨base, journal, findingsOn base maxDepth visits ++ mine.user⟩, rfl, ?_⟩
    intro more hnext
    show Collects base maxDepth (more ++ visits) mine b (next a _)
    generalize next a _ = last at hnext
    cases hnext with
    | found hmore later =>
      rw [← List.append_assoc, ← findingsOn_append]
      exact .found (List.forall_mem_append.mpr ⟨hmore, hlabels⟩) later
    | failed hvisit hwithin hlabel fault later =>
      exact .failed (List.mem_append_left visits hvisit) hwithin hlabel fault later
  | failed hvisit hwithin hlabel fault later =>
    exact ⟨mine, hmine, fun more _ =>
      .failed (List.mem_append_right more hvisit) hwithin hlabel fault later⟩

theorem Gathers.pure (hextends : base.Extends world.store) (hmine : mine.store = base) (a : α) :
    Gathers base maxDepth lineage world mine a (.ok a mine) (.ok a world) := by
  obtain ⟨store, journal, user⟩ := mine
  subst hmine
  exact ⟨rfl, hextends, [], rfl, by simp, fun _ => .found (by simp) journal⟩

/-- Two parts one after the other. Where collecting is beyond the limit, or has
    failed, the second part is compared with collecting from where it stands,
    which does not matter. -/
theorem Gathers.bind {part : Visiting σ α} {next : α → Visiting σ β}
    {mypart : Visiting (List Finding) α} {mynext : α → Visiting (List Finding) β} {a : α} {b : β}
    (hpart : Gathers base maxDepth lineage world mine a (mypart mine) (part world))
    (hmine : mine.store = base)
    (hnext : ∀ (later : World σ) (after : World (List Finding)), base.Extends later.store →
      after.store = base →
        Gathers base maxDepth lineage later after b (mynext a after) (next a later)) :
    Gathers base maxDepth lineage world mine b ((mypart >>= mynext) mine)
      ((part >>= next) world) := by
  show Gathers base maxDepth lineage world mine b ((mypart >>= mynext) mine)
    (EStateM.bind part next world)
  unfold EStateM.bind
  rcases hresult : part world with ⟨c, middle⟩ | ⟨halt, middle⟩
  · rw [hresult] at hpart
    obtain ⟨rfl, hextends, visits, hvisits, hdeeper, hcollect⟩ := hpart
    obtain ⟨after, hafter, hcollect⟩ : ∃ after : World (List Finding), after.store = base ∧
        (isWithin maxDepth lineage.length = true → ∀ more,
          Collects base maxDepth more after b (mynext c after) →
            Collects base maxDepth (more ++ visits) mine b ((mypart >>= mynext) mine)) := by
      cases hwithin : isWithin maxDepth lineage.length with
      | false => exact ⟨mine, hmine, by simp⟩
      | true =>
        obtain ⟨after, hafter, hboth⟩ := (hcollect hwithin).exists_after mynext b hmine
        exact ⟨after, hafter, fun _ => hboth⟩
    have hsecond := hnext middle after hextends hafter
    show Gathers base maxDepth lineage world mine b _ (next c middle)
    rcases hrest : next c middle with ⟨d, later⟩ | ⟨halt, later⟩
    · rw [hrest] at hsecond
      obtain ⟨rfl, hlater, more, hmore, hmoredeep, hmorecollect⟩ := hsecond
      refine ⟨rfl, hlater, more ++ visits, ?_, ?_, ?_⟩
      · rw [hmore, hvisits, List.append_assoc]
      · exact List.forall_mem_append.mpr ⟨hmoredeep, hdeeper⟩
      · exact fun hwithin => hcollect hwithin more (hmorecollect hwithin)
    · rw [hrest] at hsecond
      cases halt <;> exact hsecond
  · rw [hresult] at hpart
    cases halt <;> exact hpart

/-- What is below the deepest level is not told of, so collecting need not go
    there. -/
theorem collects_beyond {visits : List (Place × List Value)}
    (hdeepest : isDeepest maxDepth lineage.length = true)
    (hdeeper : ∀ visit ∈ visits, lineage.length + 1 ≤ visit.2.length) (hmine : mine.store = base)
    (a : α) : Collects base maxDepth visits mine a (.ok a mine) := by
  have hbeyond : ∀ visit ∈ visits, isWithin maxDepth visit.2.length = false :=
    fun visit hvisit => isWithin_deeper hdeepest (hdeeper visit hvisit)
  have hnone : findingsOn base maxDepth visits = [] := by
    rw [findingsOn, List.map_eq_nil_iff, within, List.filter_eq_nil_iff]
    intro visit hvisit
    simp [hbeyond visit hvisit]
  have hfound : Collects base maxDepth visits mine a
      (.ok a ⟨base, mine.journal, findingsOn base maxDepth visits ++ mine.user⟩) := by
    refine .found (fun visit hvisit hwithin => ?_) mine.journal
    rw [hbeyond visit hvisit] at hwithin
    cases hwithin
  rw [hnone, List.nil_append, ← hmine] at hfound
  exact hmine ▸ hfound

/-- A node and what is below it, where collecting goes unless the node is at the
    limit. -/
theorem Gathers.deepen (node : Value) {later : World σ} {here : List (Place × List Value)} {a : α}
    {mypart : Visiting (List Finding) Unit} {below : Visiting (List Finding) α}
    {result : EStateM.Result Halt (World σ) α} (hmine : mine.store = base)
    (hhere : visitsOf later.journal = here ++ visitsOf world.journal)
    (hlevel : ∀ visit ∈ here, lineage.length ≤ visit.2.length)
    (hpart : isWithin maxDepth lineage.length = true →
      Collects base maxDepth here mine () (mypart mine))
    (hbelow : ∀ after, after.store = base →
      Gathers base maxDepth (node :: lineage) later after a (below after) result) :
    Gathers base maxDepth lineage world mine a
      ((mypart >>= fun _ => if isDeepest maxDepth lineage.length then Pure.pure a else below) mine)
      result := by
  rcases result with ⟨b, last⟩ | ⟨halt, last⟩
  · obtain ⟨after, hafter, hboth⟩ : ∃ after : World (List Finding), after.store = base ∧
        (isWithin maxDepth lineage.length = true → ∀ more,
          Collects base maxDepth more after a
              ((if isDeepest maxDepth lineage.length then Pure.pure a else below) after) →
            Collects base maxDepth (more ++ here) mine a ((mypart >>= fun _ =>
              if isDeepest maxDepth lineage.length then Pure.pure a else below) mine)) := by
      cases hwithin : isWithin maxDepth lineage.length with
      | false => exact ⟨mine, hmine, by simp⟩
      | true =>
        obtain ⟨after, hafter, hboth⟩ := (hpart hwithin).exists_after
          (fun _ => if isDeepest maxDepth lineage.length then Pure.pure a else below) a hmine
        exact ⟨after, hafter, fun _ => hboth⟩
    obtain ⟨rfl, hlast, visits, hvisits, hdeeper, hcollect⟩ := hbelow after hafter
    refine ⟨rfl, hlast, visits ++ here, ?_, ?_, ?_⟩
    · rw [hvisits, hhere, List.append_assoc]
    · refine List.forall_mem_append.mpr ⟨?_, hlevel⟩
      intro visit hvisit
      have hdepth := hdeeper visit hvisit
      rw [List.length_cons] at hdepth
      omega
    · intro hwithin
      refine hboth hwithin visits ?_
      cases hdeepest : isDeepest maxDepth lineage.length with
      | true => exact collects_beyond hdeepest hdeeper hafter b
      | false => exact hcollect (isWithin_succ hwithin hdeepest)
  · have hstops := hbelow mine hmine
    cases halt <;> exact hstops

end Gathering

section Walks

variable {check : Check} {config : Config} {base : Store} {host : Host σ} {function : Nat}

/-- The direct walk: only the nodes that pass a check are shown to a function. -/
def direct (host : Host σ) (function : Nat) (test : Value) (check : Check)
    (reverse annotate : Bool) : Walker σ :=
  Request.walker ⟨test, .function function, reverse⟩ host .lineage annotate check

/-- What the direct walk does at a node, unless it fails there. -/
theorem one_direct (hwatches : Watches host function) {test : Value} {reverse annotate : Bool}
    {place : Place} {lineage : List Value} {world : World σ} {verdict : Bool}
    (hverdict : ∀ other : World σ, other.store = world.store →
      check.test host place other = .ok verdict other) :
    (∃ fault later, (direct host function test check reverse annotate).one place lineage world =
      .error fault later) ∨
    ∃ later, (direct host function test check reverse annotate).one place lineage world =
        .ok {} later ∧
      world.store.Extends later.store ∧
      visitsOf later.journal =
        (if verdict then [(place, lineage)] else []) ++ visitsOf world.journal := by
  let walker := direct host function test check reverse annotate
  let offered : World σ := { world with journal := .offered place :: world.journal }
  have hcheck : walker.check place offered = .ok verdict offered := hverdict offered rfl
  cases verdict with
  | false =>
    refine Or.inr ⟨offered, walker.one_of_consult (walker.consult_rejected hcheck), ?_, rfl⟩
    exact Store.Extends.refl world.store
  | true =>
    rcases hcall : host function (.inLineage place.node lineage) (world.store, world.user) with
      ⟨answer, store, user⟩ | ⟨fault, store, user⟩
    · obtain ⟨hextends, hread⟩ := hwatches _ _ _ _ _ _ hcall
      have hvisit : walker.visit place lineage
          { offered with journal := .visited place lineage :: offered.journal } =
            .ok answer ⟨store, .visited place lineage :: offered.journal, user⟩ := by
        show Act.call host function (.inLineage place.node lineage) _ = _
        simp only [Act.call, offered, hcall]
      let visited : World σ := ⟨store, .visited place lineage :: offered.journal, user⟩
      by_cases hsettles : visited.store.Settles answer
      · obtain ⟨journal, hjournal, hsettled⟩ := Walker.ofAnswer_settles hsettles
        rw [hread] at hsettled
        have hconsult := (walker.consult_called hcheck hvisit).trans hsettled
        refine Or.inr ⟨_, walker.one_of_consult hconsult, hextends, ?_⟩
        rw [hjournal]
        rfl
      · obtain ⟨hunread, hwrite⟩ := Classical.not_imp.mp hsettles
        obtain ⟨fault, hfault⟩ := Option.ne_none_iff_exists'.mp hwrite
        have hraises : walker.Raises place lineage world fault visited :=
          .answer hcheck hvisit (Walker.ofAnswer_fails hunread hfault)
        exact Or.inl ⟨_, _, hraises.one_fails⟩
    · have hvisit : walker.visit place lineage
          { offered with journal := .visited place lineage :: offered.journal } =
            .error fault ⟨store, .visited place lineage :: offered.journal, user⟩ := by
        show Act.call host function (.inLineage place.node lineage) _ = _
        simp only [Act.call, offered, hcall]
      exact Or.inl ⟨_, _, (Walker.Raises.visit hcheck hvisit).one_fails⟩

theorem startOf_eq {reverse annotate : Bool} (hreverse : reverse = config.reverse) {test : Value}
    {children : Value} {later : Store} (hdata : base.IsData children)
    (hextends : base.Extends later) :
    (direct host function test check reverse annotate).startOf later children =
      (walker check config).startOf base children := by
  subst hreverse
  simp only [Walker.startOf, direct, Request.walker, walker, hdata.lengthOf_eq hextends]
  rfl

/-- Collecting does not go below the deepest nodes, nor below one without children. -/
theorem visitOne_unentered
    {visitChildren : List Value → Value → Value → Visiting (List Finding) Unit}
    {lineage : List Value} {place : Place} {mine after : World (List Finding)}
    (hone : (walker check config).one place lineage mine =
      .ok (if isDeepest config.maxDepth lineage.length then .skip else {}) after)
    (hstay : after.store.children place.node = .null ∨
      isDeepest config.maxDepth lineage.length = true) :
    (walker check config).visitOne visitChildren lineage place mine = .ok .null after := by
  cases hdeepest : isDeepest config.maxDepth lineage.length with
  | true =>
    rw [hdeepest] at hone
    exact Walker.visitOne_stays _ _ _ _ hone (by simp [Directive.skip]) (Or.inr rfl)
  | false =>
    rw [hdeepest] at hone hstay
    exact Walker.visitOne_stays _ _ _ _ hone (by simp) (Or.inl (hstay.resolve_right (by simp)))

/-- What collecting does at a node before it goes below it. -/
def atNode (check : Check) (config : Config) (lineage : List Value) (place : Place) :
    Visiting (List Finding) Unit := fun world =>
  match (walker check config).one place lineage world with
  | .ok _ later => .ok () later
  | .error fault later => .error (.failed fault) later

/-- Collecting deals with a node and then with what is below it, unless the node is
    the deepest to be told of. -/
theorem visitOne_atNode {visitChildren : List Value → Value → Value → Visiting (List Finding) Unit}
    {below : Visiting (List Finding) Value} {lineage : List Value} {place : Place}
    {mine : World (List Finding)}
    (hone : (∃ after, (walker check config).one place lineage mine =
        .ok (if isDeepest config.maxDepth lineage.length then .skip else {}) after ∧
          after.store = base) ∨
      ∃ fault after, (walker check config).one place lineage mine = .error fault after)
    (hbelow : ∀ after : World (List Finding), after.store = base →
      (walker check config).one place lineage mine = .ok {} after →
        (walker check config).visitOne visitChildren lineage place mine = below after) :
    (walker check config).visitOne visitChildren lineage place mine =
      (atNode check config lineage place >>= fun _ =>
        if isDeepest config.maxDepth lineage.length then pure .null else below) mine := by
  show _ = EStateM.bind (atNode check config lineage place) _ mine
  rcases hone with ⟨after, hcollect, hafter⟩ | ⟨fault, after, hcollect⟩
  · simp only [EStateM.bind, atNode, hcollect]
    cases hdeepest : isDeepest config.maxDepth lineage.length with
    | true => exact visitOne_unentered hcollect (Or.inr hdeepest)
    | false =>
      rw [hdeepest] at hcollect
      exact hbelow after hafter hcollect
  · simp only [EStateM.bind, atNode, hcollect]
    exact Walker.visitOne_fails _ _ _ _ hcollect

section Levels

variable (himpartial : check.Impartial) (hwatches : Watches host function) (test : Value)
  (annotate : Bool)

include himpartial hwatches

/-- What both walks do at a node, unless the direct walk fails there. -/
theorem one_both {lineage : List Value} {place : Place} {datum : Datum} {world : World σ}
    {mine : World (List Finding)} (hstands : datum.StandsAt base place.node)
    (hextends : base.Extends world.store) (hmine : mine.store = base) :
    (∃ fault later, (direct host function test check config.reverse annotate).one place lineage
      world = .error fault later) ∨
    ∃ later here,
      (direct host function test check config.reverse annotate).one place lineage world =
        .ok {} later ∧
      base.Extends later.store ∧ visitsOf later.journal = here ++ visitsOf world.journal ∧
      (∀ visit ∈ here, lineage.length ≤ visit.2.length) ∧
      ((∃ after, (walker check config).one place lineage mine =
          .ok (if isDeepest config.maxDepth lineage.length then .skip else {}) after ∧
            after.store = base) ∨
        ∃ fault after, (walker check config).one place lineage mine = .error fault after) ∧
      (isWithin config.maxDepth lineage.length = true →
        Collects base config.maxDepth here mine () (atNode check config lineage place mine)) := by
  obtain ⟨verdict, hverdict⟩ := himpartial base place.node hstands.isData hstands.hasData
  have hdirect := @one_direct _ check host function hwatches test config.reverse annotate place
    lineage world verdict fun other hstore => hverdict σ host place other rfl
      (by rw [hstore]; exact hextends)
  rcases hdirect with hfails | ⟨later, hone, hgrown, hvisits⟩
  · exact Or.inl hfails
  refine Or.inr ⟨later, _, hone, hextends.trans hgrown, hvisits, ?_, ?_⟩
  · cases verdict <;> simp
  subst hmine
  rcases @one_walker check config place lineage mine verdict fun other world hnode hstore =>
      hverdict _ noHost other world hnode (by rw [hstore]; exact .refl mine.store) with
    ⟨hlabel, hcollect⟩ | ⟨⟨rfl, hlabel⟩, fault, after, hcollect⟩
  · refine ⟨.inl ⟨_, hcollect, rfl⟩, fun hwithin => ?_⟩
    simp only [atNode, hcollect]
    cases verdict with
    | false => exact .found (by simp) _
    | true =>
      have hfound : ∀ journal, Collects mine.store config.maxDepth [(place, lineage)] mine ()
          (.ok () ⟨mine.store, journal,
            findingsOn mine.store config.maxDepth [(place, lineage)] ++ mine.user⟩) :=
        .found (by simpa using fun _ => hlabel rfl)
      simpa [findingsOn, within, hwithin] using hfound _
  · refine ⟨.inr ⟨fault, after, hcollect⟩, fun hwithin => ?_⟩
    simp only [atNode, hcollect]
    exact .failed (List.mem_singleton_self _) hwithin hlabel fault after

/-- Visiting a node keeps up with collecting if visiting the children does. -/
theorem visitOne_gathers {limit : Nat} {lineage : List Value} {place : Place} {datum : Datum}
    {world : World σ} {mine : World (List Finding)}
    (hloop : ∀ lineage parent (datum : Datum) (cursor : Int) (world : World σ)
      (mine : World (List Finding)),
      datum.StandsAt base parent → base.Extends world.store → mine.store = base →
      Gathers base config.maxDepth lineage world mine ()
        ((walker check config).visitChildren limit lineage parent (.int cursor) mine)
        ((direct host function test check config.reverse annotate).visitChildren limit lineage
          parent (.int cursor) world))
    (hstands : datum.StandsAt base place.node) (hextends : base.Extends world.store)
    (hmine : mine.store = base) :
    Gathers base config.maxDepth lineage world mine .null
      ((walker check config).visitOne ((walker check config).visitChildren limit) lineage place
        mine)
      ((direct host function test check config.reverse annotate).visitOne
        ((direct host function test check config.reverse annotate).visitChildren limit) lineage
        place world) := by
  rcases one_both himpartial hwatches test annotate hstands hextends hmine with
    ⟨fault, later, hone⟩ | ⟨later, here, hone, hlater, hhere, hlevel, hcollect, hfound⟩
  · rw [Walker.visitOne_fails _ _ _ _ hone]
    trivial
  have hexit : ({} : Directive).action ≠ .action .exit := by simp
  have hchildren := hstands.isData.children_eq hlater
  have hdata := hstands.children.isData
  by_cases hleaf : base.children place.node = .null
  · rw [Walker.visitOne_stays _ _ _ _ hone hexit (Or.inl (hchildren.trans hleaf)),
      visitOne_atNode hcollect fun after hafter hmyone =>
        Walker.visitOne_stays _ _ _ _ hmyone hexit (Or.inl (hafter ▸ hleaf))]
    exact Gathers.deepen place.node hmine hhere hlevel hfound fun after hafter =>
      .pure hlater hafter Value.null
  · have henter : ¬(later.store.children place.node = .null ∨
        ({} : Directive).action = .action .skip) := by
      rw [hchildren]
      simp [hleaf]
    have hstarts := @startOf_eq _ check config base host function config.reverse annotate rfl test
      _ _ hdata hlater
    rw [← hchildren] at hstarts
    rcases hstart : (walker check config).startOf base (later.store.children place.node) with
      fault | inside
    · rw [Walker.visitOne_enter_fails _ _ _ _ hone hexit henter (hstarts.trans hstart)]
      trivial
    · rw [Walker.visitOne_descends _ _ _ _ hone hexit henter (hstarts.trans hstart)]
      rw [hchildren] at hstart
      obtain ⟨cursor, rfl, _⟩ :=
        Walker.remaining_start hstands.children.members.length_eq hstart
      rw [visitOne_atNode hcollect fun after hafter hmyone => Walker.visitOne_descends _ _ _ _
        hmyone hexit (by simp [hafter, hleaf]) (hafter ▸ hstart)]
      refine Gathers.deepen place.node hmine hhere hlevel hfound fun after hafter => ?_
      refine Gathers.bind (hloop _ _ datum cursor later after hstands hlater hafter) hafter ?_
      intro last final hlast hfinal
      exact .pure hlast hfinal Value.null

/-- The direct walk over the children of a node and collecting from them, under
    one limit on the recursion. The induction is on that limit. -/
theorem visitChildren_gathers (limit : Nat) : ∀ lineage parent (datum : Datum) (cursor : Int)
    (world : World σ) (mine : World (List Finding)),
    datum.StandsAt base parent → base.Extends world.store → mine.store = base →
    Gathers base config.maxDepth lineage world mine ()
      ((walker check config).visitChildren limit lineage parent (.int cursor) mine)
      ((direct host function test check config.reverse annotate).visitChildren limit lineage
        parent (.int cursor) world) := by
  induction limit with
  | zero => intros; trivial
  | succ limit ih =>
    intro lineage parent datum cursor world mine hstands hextends hmine
    have hreads : world.store.childAt (world.store.children parent) (.int cursor) =
        base.childAt (base.children parent) (.int cursor) := by
      rw [hstands.isData.children_eq hextends, hstands.children.isData.childAt_eq hextends]
    rcases hchild : base.childAt (base.children parent) (.int cursor) with fault | child
    · rw [Walker.visitChildren_fails _ (hreads.trans hchild)]
      trivial
    have hmychild : mine.store.childAt (mine.store.children parent) (.int cursor) = .ok child := by
      rw [hmine, hchild]
    cases child with
    | none =>
      rw [Walker.visitChildren_ends _ (hreads.trans hchild), Walker.visitChildren_ends _ hmychild]
      exact .pure hextends hmine ()
    | some child =>
      by_cases hnode : child = .null
      · subst hnode
        rw [Walker.visitChildren_passes _ (hreads.trans hchild),
          Walker.visitChildren_passes _ hmychild]
        exact ih lineage parent datum _ world mine hstands hextends hmine
      · rw [Walker.visitChildren_child _ hnode (hreads.trans hchild),
          Walker.visitChildren_child _ hnode hmychild]
        obtain ⟨member, hmember⟩ := hstands.exists_child hchild
        refine Gathers.bind (visitOne_gathers himpartial hwatches test annotate ih hmember hextends
          hmine) hmine ?_
        intro later after hlater hafter
        exact ih lineage parent datum _ later after hstands hlater hafter

theorem walkRecursively_gathers {tree : Datum} {root : Value} (hstands : tree.StandsAt base root)
    (limit : Nat) {world : World σ} {mine : World (List Finding)}
    (hextends : base.Extends world.store) (hmine : mine.store = base) :
    Gathers base config.maxDepth [] world mine ()
      ((walker check config).walkRecursively limit root mine)
      ((direct host function test check config.reverse annotate).walkRecursively limit root
        world) := by
  have hloop := @visitChildren_gathers σ check config base host function himpartial hwatches test
    annotate limit
  refine Gathers.bind (visitOne_gathers himpartial hwatches test annotate hloop hstands hextends
    hmine) hmine ?_
  intro later after hlater hafter
  exact .pure hlater hafter ()

end Levels

theorem walker_passive (himpartial : check.Impartial) (config : Config) (base : Store) :
    (walker check config).Passive base := by
  intro datum place lineage world directive later hstands hstore hone
  obtain ⟨verdict, hverdict⟩ := himpartial base place.node hstands.isData hstands.hasData
  rcases @one_walker check config place lineage world verdict fun other world hnode hsame =>
      hverdict _ noHost other world hnode (by rw [hsame, hstore]; exact .refl base) with
    ⟨_, hcollect⟩ | ⟨_, fault, after, hcollect⟩
  · rw [hcollect] at hone
    cases hone
    refine ⟨hstore, ?_⟩
    split <;> rfl
  · rw [hcollect] at hone
    cases hone

theorem standsAt_of_build {tree test : Datum} {root value : Value} {holding : Store}
    (htree : tree.build .empty = (root, holding)) (htest : test.build holding = (value, base)) :
    tree.StandsAt base root := by
  have hbuilt := tree.standsAt_build .empty
  have hextends := test.extends_build holding
  rw [htree] at hbuilt
  rw [htest] at hextends
  exact hbuilt.extend hextends

/-- What collecting comes to once its walk has come to an outcome. -/
def findingsAfter : Walker.Outcome (List Finding) → Except Fault (List Finding)
  | .ok _ final => .ok final.user.reverse
  | .error fault _ => .error fault

/-- Collecting has turns enough: if its walk comes to an outcome, it is over. -/
theorem run_eq (himpartial : check.Impartial) {tree test : Datum} {root value : Value}
    {holding : Store} (htree : tree.build .empty = (root, holding))
    (htest : test.build holding = (value, base)) (hreads : check.Reads base value) {fuel : Nat}
    {outcome : Walker.Outcome (List Finding)}
    (hwalk : (walker check config).walk fuel root ⟨base, [], []⟩ = some outcome) :
    (run tree test config).findings = findingsAfter outcome := by
  obtain ⟨other, hother⟩ := (walker_passive himpartial config base).walk_ends
    (standsAt_of_build htree htest)
    (show (⟨base, [], []⟩ : World (List Finding)).store = base from rfl)
    (show 2 * tree.weight ≤ 2 * tree.weight + 2 by omega)
  cases Walker.walk_unique hwalk hother
  have hconvert := hreads (List Finding) [] []
  simp only [run, htree, htest, hconvert, hother]
  cases outcome <;> rfl

/-- If the direct walk is over without a failure, collecting succeeds with the
    findings on its visits, or it fails at one of them of which no label can be
    made. -/
theorem run_of_direct (himpartial : check.Impartial) (hwatches : Watches host function)
    {tree test : Datum} {root value : Value} {holding : Store}
    (htree : tree.build .empty = (root, holding)) (htest : test.build holding = (value, base))
    (hreads : check.Reads base value) {annotate : Bool} {fuel : Nat} {user : σ} {ending : Ending}
    {final : World σ}
    (hwalk : (direct host function value check config.reverse annotate).walk fuel root
      ⟨base, [], user⟩ = some (.ok ending final)) :
    (∀ visit ∈ (visitsOf final.journal).reverse, isWithin config.maxDepth visit.2.length = true →
        base.Describes visit.1.node) ∧
      (run tree test config).findings =
        .ok (findingsOn base config.maxDepth (visitsOf final.journal).reverse) ∨
    (∃ visit ∈ (visitsOf final.journal).reverse, isWithin config.maxDepth visit.2.length = true ∧
        ¬base.Describes visit.1.node) ∧
      ∃ fault, (run tree test config).findings = .error fault := by
  rcases (direct host function value check config.reverse annotate).announce_cases root
      (⟨base, [], user⟩ : World σ) with ⟨fault, _, hannounce⟩ | ⟨message, hlabel, hannounce⟩
  · rw [Walker.walk_announce_fails _ hannounce] at hwalk
    cases hwalk
  obtain ⟨opening, hopens⟩ := @Walker.announce_tells _ (walker check config) root ⟨base, [], []⟩
    hlabel
  have hgathers := @walkRecursively_gathers σ check config base host function himpartial hwatches
    value annotate tree root (standsAt_of_build htree htest) fuel (World.told ⟨base, [], user⟩ message)
    (World.told ⟨base, [], []⟩ opening) (.refl base) rfl
  have htells := Walker.tells_of_walk hannounce hwalk
  generalize (direct host function value check config.reverse annotate).walkRecursively fuel root
    (World.told ⟨base, [], user⟩ message) = result at hgathers htells
  cases htells with
  | exited place last message => exact hgathers.elim
  | finished last message =>
    obtain ⟨_, _, visits, hvisits, _, hcollect⟩ := hgathers
    have hall : visitsOf (last.told message).journal = visits := by
      show visitsOf last.journal = visits
      rw [hvisits]
      exact List.append_nil visits
    rw [hall]
    have hwithin : isWithin config.maxDepth ([] : List Value).length = true := by
      cases hlimit : config.maxDepth <;> simp [isWithin]
    have hcollect := hcollect hwithin
    generalize hrecursion : (walker check config).walkRecursively fuel root
      (World.told ⟨base, [], []⟩ opening) = collected at hcollect
    obtain ⟨enough, outcome, hcollected, htold⟩ :=
      Walker.walk_tells hopens hrecursion (by cases hcollect <;> simp)
    rw [run_eq himpartial htree htest hreads hcollected]
    cases hcollect with
    | found hlabels journal =>
      refine .inl ⟨fun visit hvisit => hlabels visit (List.mem_reverse.mp hvisit), ?_⟩
      cases htold
      simp [findingsAfter, World.told, findingsOn, within]
    | failed hvisit hdepth hlabel fault later =>
      refine .inr ⟨⟨_, List.mem_reverse.mpr hvisit, hdepth, hlabel⟩, fault, ?_⟩
      cases htold
      rfl

end Walks

end Collect

/-- Collecting tells of what a direct walk visits. For every tree, every accepted
    selector or none, every configuration and every visitor that only watches:
    if the walk that shows the visitor the nodes that pass is over without a
    failure, collecting looks at the visits of nodes that have no more ancestors
    than the limit. If a label can be made of each of these nodes, it succeeds,
    with one finding for each in the order of the visits; otherwise it fails. The
    findings under a limit are those without one that are not too deep. -/
theorem collected_are_visited (host : Host σ) (function : Nat) (hwatches : Watches host function)
    (tree test : Datum) (htest : test = .null ∨ ∃ selector, Selector.parse selector = .ok test)
    (config : Config) (annotate : Bool) (user : σ) {root value : Value} {holding store : Store}
    (hroot : tree.build .empty = (root, holding)) (hvalue : test.build holding = (value, store))
    {fuel : Nat} {ending : Ending} {final : World σ}
    (hwalk : visit host .lineage ⟨value, .function function, .bool config.reverse⟩ annotate fuel
      root ⟨store, [], user⟩ = some (.ok ending final)) :
    ((∀ visit ∈ Collect.within config.maxDepth (visitsOf final.journal).reverse,
        store.Describes visit.1.node) →
      (Collect.run tree test config).findings =
        .ok ((Collect.within config.maxDepth (visitsOf final.journal).reverse).map
          fun (place, lineage) =>
            { type := store.toDatum (store.typeOf place.node)
              depth := lineage.length
              path := lineage.reverse.map fun ancestor => store.toDatum (store.typeOf ancestor)
              label := store.toDatum (store.label place.node) })) ∧
    ((∃ visit ∈ Collect.within config.maxDepth (visitsOf final.journal).reverse,
        ¬store.Describes visit.1.node) →
      ∃ fault, (Collect.run tree test config).findings = .error fault) ∧
    ∀ all, (Collect.run tree test { config with maxDepth := none }).findings = .ok all →
      (Collect.run tree test config).findings =
        .ok (all.filter fun finding => config.maxDepth.all (finding.depth ≤ ·)) := by
  obtain ⟨check, himpartial, hreads⟩ := exists_impartial htest holding
  rw [hvalue] at hreads
  have hdirect : (Collect.direct host function value check config.reverse annotate).walk fuel root
      ⟨store, [], user⟩ = some (.ok ending final) := by
    have hconvert := hreads σ [] user
    simp only [visit, Arguments.resolve_of_isCallable (show store.isCallable (.function function) =
      true from rfl), hconvert] at hwalk
    exact hwalk
  have hunlimited := @Collect.run_of_direct σ check { config with maxDepth := none } _ _ _
    himpartial hwatches _ _ _ _ _ hroot hvalue hreads _ _ _ _ _ hdirect
  rcases Collect.run_of_direct himpartial hwatches hroot hvalue hreads hdirect with
    ⟨hlabels, hlimited⟩ | ⟨⟨visit, hvisit, hwithin, hlabel⟩, fault, hlimited⟩
  · refine ⟨fun _ => hlimited, ?_, ?_⟩
    · rintro ⟨visit, hvisit, hlabel⟩
      obtain ⟨hvisit, hwithin⟩ := List.mem_filter.mp hvisit
      exact (hlabel (hlabels visit hvisit hwithin)).elim
    · intro all hall
      rcases hunlimited with ⟨_, hfindings⟩ | ⟨_, fault, hfails⟩
      · rw [hall] at hfindings
        cases hfindings
        rw [hlimited]
        simp [Collect.findingsOn, Collect.within, Collect.isWithin, Collect.findingOn,
          List.filter_map, Function.comp_def]
      · rw [hall] at hfails
        cases hfails
  · refine ⟨fun hlabels => ?_, fun _ => ⟨fault, hlimited⟩, ?_⟩
    · exact (hlabel (hlabels visit (List.mem_filter.mpr ⟨hvisit, hwithin⟩))).elim
    · intro all hall
      rcases hunlimited with ⟨hlabels, _⟩ | ⟨_, fault, hfails⟩
      · exact (hlabel (hlabels visit hvisit rfl)).elim
      · rw [hall] at hfails
        cases hfails

/-- A leaf of a type below a node of that type. -/
def twig : Datum :=
  .mapping [("type", .text "a"), ("children", .list
    [.mapping [("type", .text "b"), ("children", .list [.mapping [("type", .text "b")]])], .null])]

theorem silent_watches : Watches silent 0 := by
  rintro call store user answer later next hcall
  cases hcall
  exact ⟨.refl store, rfl⟩

theorem writes_b : Selector.Writes "b" [⟨some "b", []⟩] :=
  ⟨_, @Selector.Laid.cons [] ['b'] _ [] (by simp) (.nil (by simp)),
    .last (.named ⟨by decide, by simp⟩ .nil)⟩

/-- With a limit of one only the upper of the two nodes is told of. -/
theorem twig_collected : ∃ fuel ending final,
    visit silent .lineage ⟨.text "b", .function 0, .bool true⟩ false fuel (.cell ⟨4⟩)
      ⟨(twig.build .empty).2, [], ()⟩ = some (.ok ending final) ∧
    (visitsOf final.journal).length = 2 ∧
    (Collect.run twig (.text "b") { maxDepth := some 1, reverse := true }).findings =
      .ok [⟨.text "b", 1, [.text "a"], .text "b"⟩] := by
  refine ⟨10, .finished, _, rfl, rfl, ?_⟩
  refine (@collected_are_visited Unit silent 0 silent_watches twig (.text "b")
    (Or.inr ⟨"b", Selector.parse_of_writes writes_b⟩) { maxDepth := some 1, reverse := true } false
    () (.cell ⟨4⟩) (.text "b") _ _ rfl rfl 10 .finished _ rfl).1 ?_
  exact List.forall_mem_singleton.mpr rfl

/-- A root with a child that has a number for its type, and a name. -/
def numbered (n : Nat) : Datum :=
  .mapping [("type", .text "r"), ("children", .list
    [.mapping [("type", .scalar (.int n)), ("name", .text "x")]])]

theorem numbered_unlabelled {n : Nat} (hlong : 10 ^ Numeral.maxDigits ≤ n) :
    ¬((numbered n).build .empty).2.Describes (.cell ⟨0⟩) := by
  have hhead := ((numbered n).build .empty).2.unwritable?_head_of_long hlong
    (show ((numbered n).build .empty).2.typeOf (.cell ⟨0⟩) = .int n from rfl)
  obtain ⟨caption, hcaption⟩ :
      ∃ caption, ((numbered n).build .empty).2.caption? (.cell ⟨0⟩) = some caption := ⟨_, rfl⟩
  unfold Store.Describes Store.describe
  rw [hhead, hcaption]
  rintro ⟨⟩

/-- With a digit too many to be written in the type of the child, a direct walk
    visits both nodes and finishes, but collecting fails to make the label of
    the child. -/
theorem numbered_uncollected :
    (∃ final, visit silent .lineage ⟨.null, .function 0, .bool false⟩ false 5 (.cell ⟨2⟩)
      ⟨((numbered (10 ^ Numeral.maxDigits)).build .empty).2, [], ()⟩ =
        some (.ok .finished final) ∧ (visitsOf final.journal).length = 2) ∧
    ∃ fault, (Collect.run (numbered (10 ^ Numeral.maxDigits)) .null {}).findings =
      .error fault := by
  have hvisits : ∀ n, ∃ final, visit silent .lineage ⟨.null, .function 0, .bool false⟩ false 5
      (.cell ⟨2⟩) ⟨((numbered n).build .empty).2, [], ()⟩ = some (.ok .finished final) ∧
        (visitsOf final.journal).length = 2 := fun n => ⟨_, rfl, rfl⟩
  have hfails : ∀ n, 10 ^ Numeral.maxDigits ≤ n → ∃ fault,
      (Collect.run (numbered n) .null {}).findings = .error fault := by
    intro n hlong
    have himpartial : Check.anything.Impartial := fun _ _ _ _ => ⟨true, fun _ _ _ _ _ _ => rfl⟩
    have hdirect : ∃ final, (Collect.direct silent 0 .null .anything false false).walk 5 (.cell ⟨2⟩)
        ⟨((numbered n).build .empty).2, [], ()⟩ = some (.ok .finished final) ∧
        (⟨.cell ⟨0⟩, .int 0, .cell ⟨2⟩⟩, [.cell ⟨2⟩]) ∈ (visitsOf final.journal).reverse :=
      ⟨_, rfl, List.mem_cons_of_mem _ List.mem_cons_self⟩
    obtain ⟨final, hwalk, hchild⟩ := hdirect
    have htree : (numbered n).build .empty = (.cell ⟨2⟩, ((numbered n).build .empty).2) := rfl
    have htest : Datum.null.build ((numbered n).build .empty).2 =
        (.null, ((numbered n).build .empty).2) := rfl
    have hreads : Check.anything.Reads ((numbered n).build .empty).2 .null := fun _ _ _ => rfl
    rcases @Collect.run_of_direct _ _ {} _ _ _ himpartial silent_watches _ _ _ _ _ htree htest hreads
        _ _ _ _ _ hwalk with ⟨hlabels, _⟩ | ⟨_, hfails⟩
    · exact (numbered_unlabelled hlong (hlabels _ hchild rfl)).elim
    · exact hfails
  exact ⟨hvisits _, hfails _ (Nat.le_refl _)⟩

end Lineage
