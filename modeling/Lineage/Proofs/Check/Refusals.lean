import Lineage.Collect
import Lineage.Proofs.Check.Leaves
import Lineage.Proofs.Selector.Matching

namespace Lineage

namespace Store

variable {store : Store} {node : Value}

/-- What a leaf of a test asks of the properties of nodes, if it is a mapping. -/
def patternOf? (store : Store) (leaf : Value) : Option Entries :=
  match store.cell? leaf with
  | some (.mapping fields) => some fields.entries
  | some (.table entries) => some entries
  | _ => none

/-- Each property of a node can be compared with what a test's patterns expect
    of it, or else fails in a way that means that the two do not agree. -/
def ComparesWith (store : Store) (node : Value) (leaves : List Value) : Prop :=
  ∀ leaf ∈ leaves, ∀ entries, store.patternOf? leaf = some entries →
    ∀ key expected actual, (key, expected) ∈ entries →
      store.valueAt? node key = .ok (some actual) →
      ∀ fault, store.equal actual expected = .error fault → fault.category.isMismatch = true

/-- Looking up what a pattern asks for fails: the node has all that stands before
    some key, and has no place for a key of that sort. -/
def LacksPlace (store : Store) (node : Value) (entries : Entries) (fault : Fault) : Prop :=
  ∃ above key expected below, entries = above ++ (key, expected) :: below ∧
    Check.hasEntries store node above = .ok true ∧ store.valueAt? node key = .error fault

/-- A node does not pass a leaf. -/
def Fails (store : Store) (node leaf : Value) : Prop :=
  match Check.read store leaf with
  | .unsupported => True
  | .plain (.typeName name) => store.equal (store.typeOf node) (.scalar name) = .ok false
  | .plain (.properties fields) => Check.hasAll store node fields = .ok false
  | .plain (.pattern entries) => Check.hasEntries store node entries = .ok false
  | _ => False

/-- From left to right, a node comes to a leaf that it trips over before it passes
    one. It trips over a type name if its type refuses comparison, and over a
    pattern if it has no place for one of the keys. -/
inductive Trips (store : Store) (node : Value) (fault : Fault) : List Value → Prop where
  | name {leaf : Value} {rest : List Value} {name : Scalar}
      (hread : Check.read store leaf = .plain (.typeName name))
      (hrefusal : store.refusal? (store.typeOf node) = some fault) :
      Trips store node fault (leaf :: rest)
  | key {leaf : Value} {rest : List Value} {entries : Entries}
      (hread : Check.read store leaf = .plain (.pattern entries))
      (hlacks : store.LacksPlace node entries fault) : Trips store node fault (leaf :: rest)
  | later {leaf : Value} {rest : List Value} (hfails : store.Fails node leaf)
      (hrest : Trips store node fault rest) : Trips store node fault (leaf :: rest)

/-- Only a key that is no text has no place, and only in what is no mapping. -/
theorem valueAt?_eq_error {key : Scalar} {fault : Fault} :
    store.valueAt? node key = .error fault ↔
      key.text? = none ∧ store.patternOf? node = none ∧ fault = .of (.keyNotText key.kind) := by
  unfold valueAt? patternOf?
  cases key.text? with
  | some name => simp [pure, Except.pure]
  | none =>
    rcases store.cell? node with - | cell
    · simp [throw, throwThe, MonadExceptOf.throw, eq_comm]
    · cases cell with
      | mapping _ | table _ => simp [pure, Except.pure]
      | _ => simp [throw, throwThe, MonadExceptOf.throw, eq_comm]

section Comparisons

/-- Comparing with a scalar fails only if the other value refuses it. -/
theorem equal_scalar_of_refusal {value : Value} {fault : Fault} (s : Scalar)
    (hrefusal : store.refusal? value = some fault) :
    store.equal value (.scalar s) = .error fault := by
  simp only [equal, equalAt, hrefusal]
  rfl

theorem exists_agrees {actual expected : Value}
    (hmismatch : ∀ fault, store.equal actual expected = .error fault →
      fault.category.isMismatch = true) :
    ∃ verdict, store.agrees actual expected = .ok verdict := by
  simp only [agrees]
  split
  · exact ⟨_, rfl⟩
  · split
    · exact ⟨_, rfl⟩
    · cases hequal : store.equal actual expected with
      | ok verdict => exact ⟨verdict, rfl⟩
      | error fault => exact ⟨false, by simp only [hmismatch fault hequal]; rfl⟩

/-- A pattern goes on after the entries that the node has. -/
theorem hasEntries_append {above : Entries} (below : Entries)
    (habove : Check.hasEntries store node above = .ok true) :
    Check.hasEntries store node (above ++ below) = Check.hasEntries store node below := by
  induction above with
  | nil => rfl
  | cons entry rest ih =>
    obtain ⟨key, expected⟩ := entry
    rw [Check.hasEntries] at habove
    rw [List.cons_append, Check.hasEntries]
    cases hfound : store.valueAt? node key with
    | error fault =>
      rw [hfound] at habove
      cases habove
    | ok found =>
      rw [hfound] at habove
      cases found with
      | none => cases habove
      | some actual =>
        simp only [bind, Except.bind] at habove ⊢
        cases hagrees : store.agrees actual expected with
        | error fault =>
          rw [hagrees] at habove
          cases habove
        | ok verdict =>
          rw [hagrees] at habove
          cases verdict with
          | true => exact ih habove
          | false => cases habove

/-- A pattern is decided if every comparison it asks for is, unless the node has
    no place for one of its keys. -/
theorem hasEntries_cases {entries : Entries}
    (hmismatch : ∀ key expected actual, (key, expected) ∈ entries →
      store.valueAt? node key = .ok (some actual) → ∀ fault,
        store.equal actual expected = .error fault → fault.category.isMismatch = true) :
    (∃ verdict, Check.hasEntries store node entries = .ok verdict) ∨
      ∃ fault, Check.hasEntries store node entries = .error fault ∧
        store.LacksPlace node entries fault := by
  induction entries with
  | nil => exact .inl ⟨true, rfl⟩
  | cons entry rest ih =>
    obtain ⟨key, expected⟩ := entry
    have hrest := ih fun key expected actual hmem => hmismatch key expected actual (.tail _ hmem)
    rw [Check.hasEntries]
    cases hfound : store.valueAt? node key with
    | error fault => exact .inr ⟨fault, rfl, [], key, expected, rest, rfl, rfl, hfound⟩
    | ok found =>
      cases found with
      | none => exact .inl ⟨false, rfl⟩
      | some actual =>
        obtain ⟨verdict, hagrees⟩ :=
          exists_agrees (hmismatch key expected actual (.head _) hfound)
        simp only [bind, Except.bind, hagrees]
        cases verdict with
        | false => exact .inl ⟨false, rfl⟩
        | true =>
          rcases hrest with hdecided | ⟨fault, hfault, above, other, value, below, rfl, habove, hother⟩
          · exact .inl hdecided
          · refine .inr ⟨fault, hfault, (key, expected) :: above, other, value, below, rfl, ?_, hother⟩
            rw [Check.hasEntries]
            simp only [bind, Except.bind, hfound, hagrees]
            exact habove

theorem hasEntries_of_lacksPlace {entries : Entries} {fault : Fault}
    (hlacks : store.LacksPlace node entries fault) :
    Check.hasEntries store node entries = .error fault := by
  obtain ⟨above, key, expected, below, rfl, habove, hkey⟩ := hlacks
  rw [hasEntries_append _ habove, Check.hasEntries, hkey]
  rfl

/-- There is a place for every key that is a text. -/
theorem not_lacksPlace_entries (fields : Fields) (fault : Fault) :
    ¬ store.LacksPlace node fields.entries fault := by
  rintro ⟨above, key, expected, below, hentries, _, hkey⟩
  have hmem : (key, expected) ∈ fields.entries := by simp [hentries]
  obtain ⟨field, _, hfield⟩ := List.mem_map.mp hmem
  cases hfield
  cases (valueAt?_eq_error.mp hkey).1

/-- What a leaf that is no function asks of a node. -/
inductive Asks (store : Store) (leaf : Value) : Check → Prop where
  | anything (hread : Check.read store leaf = .plain .anything) : Asks store leaf .anything
  | nothing (hread : Check.read store leaf = .unsupported) : Asks store leaf .nothing
  | name {name : Scalar} (hread : Check.read store leaf = .plain (.typeName name)) :
      Asks store leaf (.typeName name)
  | properties {fields : Fields} (hread : Check.read store leaf = .plain (.properties fields))
      (hpattern : store.patternOf? leaf = some fields.entries) :
      Asks store leaf (.properties fields)
  | pattern {entries : Entries} (hread : Check.read store leaf = .plain (.pattern entries))
      (hpattern : store.patternOf? leaf = some entries) : Asks store leaf (.pattern entries)

theorem exists_asks {leaf : Value} (hcallable : store.isCallable leaf = false)
    (hleaf : ∀ tests, Check.read store leaf ≠ .members tests) :
    ∃ check, store.Asks leaf check ∧ Check.ofLeaf store leaf = [check] := by
  cases leaf with
  | function f => cases hcallable
  | scalar s =>
    cases s with
    | null => exact ⟨_, .anything rfl, rfl⟩
    | text name => exact ⟨_, .name rfl, rfl⟩
    | action name => exact ⟨_, .name rfl, rfl⟩
    | _ => exact ⟨_, .nothing rfl, rfl⟩
  | cell ref =>
    cases hget : store.get? ref with
    | none =>
      have hread : Check.read store (.cell ref) = .unsupported := by simp only [Check.read, hget]
      exact ⟨_, .nothing hread, by simp only [Check.ofLeaf, hread]⟩
    | some cell =>
      cases cell with
      | list tests => exact (hleaf tests (by simp only [Check.read, hget])).elim
      | tuple tests => exact (hleaf tests (by simp only [Check.read, hget])).elim
      | check check => simp [isCallable, hget] at hcallable
      | mapping fields =>
        have hread : Check.read store (.cell ref) = .plain (.properties fields) := by
          simp only [Check.read, hget]
        have hpattern : store.patternOf? (.cell ref) = some fields.entries := by
          simp only [patternOf?, cell?, hget]
        exact ⟨_, .properties hread hpattern, by simp only [Check.ofLeaf, hread]; rfl⟩
      | table entries =>
        have hread : Check.read store (.cell ref) = .plain (.pattern entries) := by
          simp only [Check.read, hget]
        have hpattern : store.patternOf? (.cell ref) = some entries := by
          simp only [patternOf?, cell?, hget]
        exact ⟨_, .pattern hread hpattern, by simp only [Check.ofLeaf, hread]; rfl⟩
      | _ =>
        have hread : Check.read store (.cell ref) = .unsupported := by simp only [Check.read, hget]
        exact ⟨_, .nothing hread, by simp only [Check.ofLeaf, hread]⟩

end Comparisons

end Store

section Scanning

variable {σ : Type} {host : Host σ} {place : Place} {world : World σ}

/-- Checks that are made of some leaves come to an answer and change nothing.
    They fail exactly where the node trips over one of the leaves. -/
def Settles (host : Host σ) (place : Place) (world : World σ) (checks : List Check)
    (leaves : List Value) : Prop :=
  ∃ answer : Except Fault Bool,
    Check.testAny host place checks world = Act.ofExcept answer world ∧
    ∀ fault, answer = .error fault ↔ world.store.Trips place.node fault leaves

variable {check : Check} {checks : List Check} {leaf : Value} {rest : List Value}

theorem Settles.nil : Settles host place world [] [] := by
  refine ⟨.ok false, rfl, ?_⟩
  intro fault
  constructor
  · intro hfault
    cases hfault
  · intro htrips
    cases htrips

/-- A leaf settles the matter if it is passed or tripped over, and leaves it to
    the others if it is not passed. -/
theorem Settles.cons {answer : Except Fault Bool}
    (htest : check.test host place world = Act.ofExcept answer world)
    (htrips : ∀ fault, world.store.Trips place.node fault (leaf :: rest) ↔
      answer = .error fault ∨ answer = .ok false ∧ world.store.Trips place.node fault rest)
    (hrest : Settles host place world checks rest) :
    Settles host place world (check :: checks) (leaf :: rest) := by
  obtain ⟨other, hother, hfaults⟩ := hrest
  have hcons : Check.testAny host place (check :: checks) world =
      match answer with
      | .ok true => .ok true world
      | .ok false => Check.testAny host place checks world
      | .error fault => .error fault world := by
    rw [Check.testAny]
    simp only [bind, EStateM.bind, htest]
    rcases answer with fault | _ | _ <;> rfl
  rcases answer with fault | _ | _
  · refine ⟨.error fault, hcons, fun other => ?_⟩
    rw [htrips]
    simp
  · refine ⟨other, hcons.trans hother, fun fault => ?_⟩
    rw [htrips, hfaults]
    simp
  · refine ⟨.ok true, hcons, fun fault => ?_⟩
    rw [htrips]
    simp

end Scanning

namespace Store

section Leaves

variable {leaf : Value} {rest : List Value} {fault : Fault}

theorem trips_cons : store.Trips node fault (leaf :: rest) ↔
    (∃ name, Check.read store leaf = .plain (.typeName name) ∧
      store.refusal? (store.typeOf node) = some fault) ∨
    (∃ entries, Check.read store leaf = .plain (.pattern entries) ∧
      store.LacksPlace node entries fault) ∨
    store.Fails node leaf ∧ store.Trips node fault rest := by
  constructor
  · intro htrips
    cases htrips with
    | name hread hrefusal => exact .inl ⟨_, hread, hrefusal⟩
    | key hread hlacks => exact .inr (.inl ⟨_, hread, hlacks⟩)
    | later hfails hrest => exact .inr (.inr ⟨hfails, hrest⟩)
  · rintro (⟨_, hread, hrefusal⟩ | ⟨_, hread, hlacks⟩ | ⟨hfails, hrest⟩)
    · exact .name hread hrefusal
    · exact .key hread hlacks
    · exact .later hfails hrest

/-- What a leaf that is no function is decided to be: a failure exactly where the
    node trips over it, and false exactly where the node does not pass it. -/
theorem Asks.settles {σ : Type} {check : Check} {place : Place} (host : Host σ) {world : World σ}
    (hasks : world.store.Asks leaf check)
    (hmismatch : ∀ entries, world.store.patternOf? leaf = some entries →
      ∀ key expected actual, (key, expected) ∈ entries →
        world.store.valueAt? place.node key = .ok (some actual) →
        ∀ fault, world.store.equal actual expected = .error fault →
          fault.category.isMismatch = true) :
    ∃ answer : Except Fault Bool, check.test host place world = Act.ofExcept answer world ∧
      ∀ fault rest, world.store.Trips place.node fault (leaf :: rest) ↔
        answer = .error fault ∨ answer = .ok false ∧ world.store.Trips place.node fault rest := by
  cases hasks with
  | anything hread =>
    refine ⟨.ok true, rfl, fun fault rest => ?_⟩
    rw [trips_cons]
    simp [Fails, hread]
  | nothing hread =>
    refine ⟨.ok false, rfl, fun fault rest => ?_⟩
    rw [trips_cons]
    simp [Fails, hread]
  | @name name hread =>
    refine ⟨world.store.equal (world.store.typeOf place.node) (.scalar name), rfl,
      fun fault rest => ?_⟩
    rw [trips_cons]
    cases hrefusal : world.store.refusal? (world.store.typeOf place.node) with
    | some refusal =>
      simp [Fails, hread, equal_scalar_of_refusal name hrefusal]
    | none =>
      simp [Fails, hread, equal_scalar_of_comparable hrefusal name]
  | @properties fields hread hpattern =>
    refine ⟨Check.hasAll world.store place.node fields, rfl, fun fault rest => ?_⟩
    rw [trips_cons]
    rcases hasEntries_cases (hmismatch _ hpattern) with ⟨verdict, hdecided⟩ | ⟨_, _, hlacks⟩
    · simp [Fails, hread, Check.hasAll, hdecided]
    · exact (not_lacksPlace_entries fields _ hlacks).elim
  | @pattern entries hread hpattern =>
    refine ⟨Check.hasEntries world.store place.node entries, rfl, fun fault rest => ?_⟩
    rw [trips_cons]
    rcases hasEntries_cases (hmismatch _ hpattern) with ⟨verdict, hdecided⟩ | ⟨other, hother, hlacks⟩
    · have hnever : ¬ world.store.LacksPlace place.node entries fault := by
        intro hlacks
        cases (hasEntries_of_lacksPlace hlacks).symm.trans hdecided
      simp [Fails, hread, hdecided, hnever]
    · have honly : world.store.LacksPlace place.node entries fault ↔ other = fault := by
        constructor
        · intro hagain
          cases (hasEntries_of_lacksPlace hagain).symm.trans hother
          rfl
        · rintro rfl
          exact hlacks
      simp [Fails, hread, hother, honly]

end Leaves

end Store

section Data

variable {σ : Type} {host : Host σ} {place : Place} {world : World σ}

/-- Leaves without functions are decided and nothing is changed, unless the node
    trips over one of them. -/
theorem settles_data {leaves : List Value}
    (hdata : ∀ leaf ∈ leaves, world.store.isCallable leaf = false)
    (hleaves : ∀ leaf ∈ leaves, ∀ tests, Check.read world.store leaf ≠ .members tests)
    (hcompares : world.store.ComparesWith place.node leaves) :
    Settles host place world (leaves.flatMap (Check.ofLeaf world.store)) leaves := by
  induction leaves with
  | nil => exact .nil
  | cons leaf rest ih =>
    have hrest := ih (fun leaf hmem => hdata leaf (.tail _ hmem))
      (fun leaf hmem => hleaves leaf (.tail _ hmem)) (fun leaf hmem => hcompares leaf (.tail _ hmem))
    rw [List.forall_mem_cons] at hdata hleaves
    obtain ⟨check, hasks, hcheck⟩ := Store.exists_asks hdata.1 hleaves.1
    obtain ⟨answer, hanswer, htrips⟩ := hasks.settles host (hcompares leaf (.head _))
    rw [List.flatMap_cons, hcheck, List.singleton_append]
    exact .cons hanswer (fun fault => htrips fault rest) hrest

end Data

section Strict

/-- A node whose type and data refuse comparison, and two tests: one of a
    pattern and of an unsupported value at the address 3, and one of these and
    of a type name at 4. -/
def strictNode : Store :=
  ⟨#[.incomparable .type,
    .mapping [("type", .cell ⟨0⟩), ("data", .cell ⟨0⟩)],
    .mapping [("data", .int 1)],
    .list [.cell ⟨2⟩, .int 5],
    .tuple [.cell ⟨3⟩, .text "heading"]]⟩

theorem strictNode_flattens : strictNode.Flattens (.cell ⟨3⟩) [.cell ⟨2⟩, .int 5] ∧
    strictNode.Flattens (.cell ⟨4⟩) [.cell ⟨2⟩, .int 5, .text "heading"] := by
  have hinner : strictNode.Flattens (.cell ⟨3⟩) [.cell ⟨2⟩, .int 5] :=
    .members rfl (.cons (.of_plain rfl) (.cons (.of_unsupported rfl) .nil))
  exact ⟨hinner, .members rfl (.cons hinner (.cons (.of_plain rfl) .nil))⟩

theorem strictNode_compares :
    strictNode.ComparesWith (.cell ⟨1⟩) [.cell ⟨2⟩, .int 5, .text "heading"] := by
  intro leaf hleaf entries hentries key expected actual hmem hactual fault hfault
  simp only [List.mem_cons, List.not_mem_nil, or_false] at hleaf
  rcases hleaf with rfl | rfl | rfl
  · cases hentries
    cases List.mem_singleton.mp hmem
    cases hactual
    cases hfault
    rfl
  · cases hentries
  · cases hentries

/-- A pattern with a key that is no text, put to a node that is no mapping. -/
example : Check.isMatch Collect.noHost ⟨.cell ⟨0⟩, .null, .null⟩ (.cell ⟨1⟩)
    ⟨⟨#[.element [], .table [(.int 5, .int 1)]]⟩, [], ()⟩ =
    .error (.of (.keyNotText .int)) ⟨⟨#[.element [], .table [(.int 5, .int 1)]]⟩, [], ()⟩ := rfl

end Strict

end Lineage
