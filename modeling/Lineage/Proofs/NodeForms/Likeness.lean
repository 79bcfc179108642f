import Lineage.Proofs.NodeForms.Conduct
import Lineage.Proofs.Walk.Annotation
import Lineage.Proofs.Walk.SideBySide
import Mathlib.Data.List.Forall2

/-!
Activities in two worlds with the same tree in two forms. What they come to is
the same, but for the labels of nodes without a type.
-/

namespace Lineage

variable {σ α β γ δ : Type}

/-- The label of a node in the two forms of a tree. If it is not the same in
    both, the node has no type that counts as true. -/
def LabelsAlike (label other : String) : Prop :=
  other = label ∨ ∃ first second node, Store.Resembles first second ∧
    first.isTrue (first.typeOf node) = false ∧ first.label node = .text label ∧
    second.label node = .text other

/-- Two walks did the same thing. What they said may differ in a label. -/
inductive Entry.Alike : Entry → Entry → Prop where
  | same (entry : Entry) : Entry.Alike entry entry
  | said (severity : Severity) (before after : String) {label other : String}
      (hlabels : LabelsAlike label other) :
      Entry.Alike (.said severity (before ++ label ++ after))
        (.said severity (before ++ other ++ after))

/-- Two failures are the same. The path in a note may differ in its labels. -/
inductive Fault.Alike : Fault → Fault → Prop where
  | same (fault : Fault) : Fault.Alike fault fault
  | noted (fault : Fault) {labels others : List String}
      (hlabels : List.Forall₂ LabelsAlike labels others) :
      Fault.Alike (fault.note ("while visiting " ++ " > ".intercalate labels))
        (fault.note ("while visiting " ++ " > ".intercalate others))

/-- Two worlds with the same tree in two forms, in which the same was done. -/
structure World.Alike (first second : World σ) : Prop where
  stores : first.store.Resembles second.store
  journals : List.Forall₂ Entry.Alike first.journal second.journal
  users : second.user = first.user

/-- The same, given the roles of the cells. -/
structure World.Twins (roles : List Role) (first second : World σ) : Prop where
  stores : first.store.Twins roles second.store
  journals : List.Forall₂ Entry.Alike first.journal second.journal
  users : second.user = first.user

theorem World.Twins.alike {roles : List Role} {first second : World σ}
    (hworlds : first.Twins roles second) : first.Alike second :=
  ⟨hworlds.stores.resembles, hworlds.journals, hworlds.users⟩

section Labels

variable {roles : List Role} {first second : Store} (htwins : first.Twins roles second)
  {node : Value} {lineage : List Value}

include htwins

theorem Store.Twins.label_plays (hnode : node.Plays roles .node) :
    (first.label node).Plays roles .data := by
  unfold Store.label
  split
  · trivial
  · exact htwins.head_plays hnode

/-- A node has the same label in both forms, or it has no type and both labels
    are texts. -/
theorem Store.Twins.label_cases (hnode : node.Plays roles .node) :
    second.label node = first.label node ∨ ∃ label other, first.label node = .text label ∧
      second.label node = .text other ∧ LabelsAlike label other := by
  cases htype : first.isTrue (first.typeOf node) with
  | true => exact Or.inl (htwins.label_eq hnode htype)
  | false =>
    have hsecond : second.isTrue (second.typeOf node) = false := by
      rw [htwins.resembles.typeOf_eq, htwins.isTrue_eq (htwins.typeOf_plays hnode) (by simp), htype]
    obtain ⟨label, hlabel⟩ := Store.label_of_not_isTrue htype
    obtain ⟨other, hother⟩ := Store.label_of_not_isTrue hsecond
    exact Or.inr ⟨label, other, hlabel, hother,
      Or.inr ⟨first, second, node, htwins.resembles, htype, hlabel, hother⟩⟩

/-- The label of a node can be made in both forms, or fails alike. -/
theorem Store.Twins.describe_cases (hnode : node.Plays roles .node) :
    (first.Describes node ∧ second.Describes node) ∨
      ∃ fault, first.describe node = .error fault ∧ second.describe node = .error fault := by
  have hhead := htwins.unwritable?_head hnode
  have hcaption := htwins.resembles.caption?_eq node
  unfold Store.Describes Store.describe
  rw [hcaption, hhead]
  split
  · exact Or.inr ⟨_, rfl, rfl⟩
  · exact Or.inl ⟨rfl, rfl⟩

theorem Store.Twins.describes_iff (hnode : node.Plays roles .node) :
    second.Describes node ↔ first.Describes node := by
  rcases htwins.describe_cases hnode with ⟨hfirst, hsecond⟩ | ⟨fault, hfirst, hsecond⟩
  · exact iff_of_true hsecond hfirst
  · simp [Store.Describes, hfirst, hsecond]

theorem Store.Twins.display_label (hnode : node.Plays roles .node) :
    LabelsAlike (first.display (first.label node)) (second.display (second.label node)) := by
  cases htwins.label_cases hnode with
  | inl hsame =>
    rw [hsame, htwins.display_eq (htwins.label_plays hnode)]
    exact Or.inl rfl
  | inr htexts =>
    obtain ⟨label, other, hlabel, hother, halike⟩ := htexts
    rw [hlabel, hother]
    exact halike

/-- A node is told in both forms, with labels alike, or in neither. -/
theorem Store.Twins.text?_label (hnode : node.Plays roles .node) :
    Option.Rel LabelsAlike (first.label node).text? (second.label node).text? := by
  cases htwins.label_cases hnode with
  | inl hsame =>
    rw [hsame]
    cases (first.label node).text? with
    | none => exact .none
    | some label => exact .some (Or.inl rfl)
  | inr htexts =>
    obtain ⟨label, other, hlabel, hother, halike⟩ := htexts
    rw [hlabel, hother]
    exact .some halike

theorem Store.Twins.isTold_iff (hnode : node.Plays roles .node) :
    second.IsTold node ↔ first.IsTold node := by
  have hrel := htwins.text?_label hnode
  rw [Store.isTold_iff, Store.isTold_iff, htwins.describes_iff hnode]
  generalize (first.label node).text? = label at hrel
  generalize (second.label node).text? = other at hrel
  cases hrel with
  | some _ => exact Iff.rfl
  | none => exact Iff.rfl

/-- A label that can be made and is no text is the same in both forms. -/
theorem Store.Twins.label_untold (hnode : node.Plays roles .node) (hmade : first.Describes node)
    (huntold : ¬ first.IsTold node) :
    second.label node = first.label node ∧
      second.kind (first.label node) = first.kind (first.label node) := by
  refine ⟨?_, htwins.kind_eq (htwins.label_plays hnode) (by simp)⟩
  cases htwins.label_cases hnode with
  | inl hsame => exact hsame
  | inr htexts =>
    obtain ⟨label, other, hlabel, _, _⟩ := htexts
    refine (huntold (Store.isTold_iff.mpr ⟨hmade, ?_⟩)).elim
    rw [hlabel]
    rfl

/-- The labels on a path are alike. -/
theorem Store.Twins.labels_alike {nodes : List Value}
    (hnodes : ∀ node ∈ nodes, node.Plays roles .node) :
    List.Forall₂ LabelsAlike (nodes.filterMap fun node => (first.label node).text?)
      (nodes.filterMap fun node => (second.label node).text?) := by
  induction nodes with
  | nil => exact .nil
  | cons node rest ih =>
    rw [List.forall_mem_cons] at hnodes
    have hrel := htwins.text?_label hnodes.1
    rw [List.filterMap_cons, List.filterMap_cons]
    generalize (first.label node).text? = label at hrel
    generalize (second.label node).text? = other at hrel
    cases hrel with
    | some halike => exact .cons halike (ih hnodes.2)
    | none => exact ih hnodes.2

/-- A failure is located alike in both forms. -/
theorem located_alike (hnodes : ∀ other ∈ node :: lineage, other.Plays roles .node)
    (fault : Fault) :
    Fault.Alike (located first node lineage fault) (located second node lineage fault) := by
  by_cases hinterrupt : fault.category = .interrupt
  · rw [located_interrupt hinterrupt, located_interrupt hinterrupt]
    exact .same fault
  have hpath : ∀ other ∈ lineage.reverse ++ [node], other.Plays roles .node := by
    intro other hmem
    apply hnodes
    simpa [or_comm] using hmem
  by_cases hmade : ∀ other ∈ lineage.reverse ++ [node], first.Describes other
  case neg =>
    -- The first label that cannot be made fails alike in both forms.
    obtain ⟨above, stranger, below, hnodes, habove, hstranger⟩ := exists_first_not hmade
    rw [hnodes] at hpath
    have hsecond : ∀ other ∈ above, second.Describes other := fun other hmem =>
      (htwins.describes_iff (hpath other (List.mem_append_left _ hmem))).mpr (habove other hmem)
    rcases htwins.describe_cases (hpath stranger (by simp)) with ⟨hfirst, _⟩ | ⟨other, hfirst, hother⟩
    · exact (hstranger hfirst).elim
    · rw [located_undescribed hinterrupt hnodes habove hfirst,
        located_undescribed hinterrupt hnodes hsecond hother]
      exact .same _
  have hothers : ∀ other ∈ lineage.reverse ++ [node], second.Describes other :=
    fun other hmem => (htwins.describes_iff (hpath other hmem)).mpr (hmade other hmem)
  by_cases htold : ∀ other ∈ lineage.reverse ++ [node], first.IsTold other
  · have hsecond : ∀ other ∈ lineage.reverse ++ [node], second.IsTold other :=
      fun other hmem => (htwins.isTold_iff (hpath other hmem)).mpr (htold other hmem)
    rw [located_told hinterrupt htold, located_told hinterrupt hsecond]
    exact .noted fault (htwins.labels_alike hpath)
  · -- The first label that is no text is that of a node with a type, the same in both forms.
    obtain ⟨above, stranger, below, hnodes, habove, hstranger⟩ := exists_first_not htold
    have hmet : stranger ∈ lineage.reverse ++ [node] := by simp [hnodes]
    have hplays : stranger.Plays roles .node := hpath stranger hmet
    have hsecond : ∀ other ∈ above, second.IsTold other := by
      intro other hmem
      have hother : other ∈ lineage.reverse ++ [node] := by simp [hnodes, hmem]
      exact (htwins.isTold_iff (hpath other hother)).mpr (habove other hmem)
    obtain ⟨hlabel, hkind⟩ := htwins.label_untold hplays (hmade stranger hmet) hstranger
    rw [located_untold hinterrupt hmade hnodes habove hstranger,
      located_untold hinterrupt hothers hnodes hsecond (mt (htwins.isTold_iff hplays).mp hstranger),
      hlabel, hkind]
    exact .same _

end Labels

/-- What two activities come to in worlds with the same tree in two forms: both
    go well or both fail, and what they leave is such worlds again. -/
inductive Beside (faults : Fault → Fault → Prop) (results : List Role → α → β → Prop)
    (roles : List Role) : EStateM.Result Fault (World σ) α → EStateM.Result Fault (World σ) β →
      Prop where
  | ok {later : List Role} {a : α} {b : β} {first second : World σ} (hlater : roles <+: later)
      (hworlds : first.Twins later second) (hresults : results later a b) :
      Beside faults results roles (.ok a first) (.ok b second)
  | error {later : List Role} {fault other : Fault} {first second : World σ}
      (hlater : roles <+: later) (hworlds : first.Twins later second)
      (hfaults : faults fault other) :
      Beside faults results roles (.error fault first) (.error other second)

/-- Two activities keep side by side, whatever else has a role by then. -/
def Tracks (results : List Role → α → β → Prop) (roles : List Role) (act : Act σ α)
    (rival : Act σ β) : Prop :=
  ∀ later first second, roles <+: later → first.Twins later second →
    Beside Eq results later (act first) (rival second)

/-- The same result of both, of which something holds. -/
def Both (holds : List Role → α → Prop) (roles : List Role) (a b : α) : Prop :=
  b = a ∧ holds roles a

section Tracks

variable {roles : List Role}

theorem Tracks.mono {results : List Role → α → β → Prop} {act : Act σ α} {rival : Act σ β}
    {later : List Role} (htracks : Tracks results roles act rival) (hlater : roles <+: later) :
    Tracks results later act rival :=
  fun last first second hlast => htracks last first second (hlater.trans hlast)

theorem Tracks.bind {results : List Role → α → β → Prop} {nexts : List Role → γ → δ → Prop}
    {act : Act σ α} {rival : Act σ β} {next : α → Act σ γ} {other : β → Act σ δ}
    (htracks : Tracks results roles act rival)
    (hnext : ∀ later a b, roles <+: later → results later a b →
      Tracks nexts later (next a) (other b)) :
    Tracks nexts roles (act >>= next) (rival >>= other) := by
  intro later first second hlater hworlds
  have hfirst := htracks later first second hlater hworlds
  simp only [Bind.bind, EStateM.bind]
  generalize act first = mine at hfirst
  generalize rival second = theirs at hfirst
  cases hfirst with
  | error hmiddle hboth hfaults => exact .error hmiddle hboth hfaults
  | @ok middle a b mine theirs hmiddle hboth hresults =>
    have hlast := hnext middle a b (hlater.trans hmiddle) hresults middle mine theirs
      (List.prefix_refl _) hboth
    dsimp only
    generalize next a mine = last at hlast
    generalize other b theirs = reply at hlast
    cases hlast with
    | error hlast hboth hfaults => exact .error (hmiddle.trans hlast) hboth hfaults
    | ok hlast hboth hresults => exact .ok (hmiddle.trans hlast) hboth hresults

theorem Tracks.pure {results : List Role → α → β → Prop} {a : α} {b : β}
    (hresults : ∀ later, roles <+: later → results later a b) :
    Tracks results roles (pure a : Act σ α) (pure b) :=
  fun later _ _ hlater hworlds => .ok (List.prefix_refl _) hworlds (hresults later hlater)

theorem Tracks.store :
    Tracks (fun roles first second => first.Twins roles second) roles (Act.store : Act σ Store)
      Act.store :=
  fun _ _ _ _ hworlds => .ok (List.prefix_refl _) hworlds hworlds.stores

theorem Tracks.record {entry other : Entry} (hentries : Entry.Alike entry other) :
    Tracks (fun _ _ _ => True) roles (Act.record entry : Act σ Unit) (Act.record other) :=
  fun _ _ _ _ hworlds => .ok (List.prefix_refl _)
    ⟨hworlds.stores, .cons hentries hworlds.journals, hworlds.users⟩ trivial

theorem Tracks.ofExcept {holds : List Role → α → Prop} {result other : Except Fault α}
    (hsame : other = result)
    (hholds : ∀ later, roles <+: later → ∀ a, result = .ok a → holds later a) :
    Tracks (Both holds) roles (Act.ofExcept result : Act σ α) (Act.ofExcept other) := by
  subst hsame
  intro later first second hlater hworlds
  cases other with
  | error fault => exact .error (List.prefix_refl _) hworlds rfl
  | ok a => exact .ok (List.prefix_refl _) hworlds ⟨rfl, hholds later hlater a rfl⟩

end Tracks

section Checks

variable {roles : List Role} {host rival : Host σ} {place : Place}

/-- The node at a place and its parent are nodes. -/
def Place.Plays (roles : List Role) (place : Place) : Prop :=
  place.node.Plays roles .node ∧ place.parent.Plays roles .node

theorem Place.Plays.mono {later : List Role} (hplace : place.Plays roles)
    (hlater : roles <+: later) : place.Plays later :=
  ⟨hplace.1.mono hlater, hplace.2.mono hlater⟩

/-- Functions that do the same are called alike. -/
theorem Tracks.call (hhosts : Corresponds roles host rival) (function : Nat) {call : Call}
    (hcall : ∀ node ∈ call.nodes, node.Plays roles .node) :
    Tracks (Both fun later answer => answer.Plays later .data) roles
      (Act.call host function call) (Act.call rival function call) := by
  intro later first second hlater hworlds
  have hresponds := hhosts later first.store second.store first.user function call hlater
    hworlds.stores fun node hnode => (hcall node hnode).mono hlater
  unfold Act.call
  rw [hworlds.users]
  generalize host function call (first.store, first.user) = mine at hresponds
  generalize rival function call (second.store, first.user) = theirs at hresponds
  cases hresponds with
  | ok hmore htwins hanswer => exact .ok hmore ⟨htwins, hworlds.journals, rfl⟩ ⟨rfl, hanswer⟩
  | error hmore htwins => exact .error hmore ⟨htwins, hworlds.journals, rfl⟩ rfl

mutual

/-- A check that looks under shared keys only comes to the same in both forms of a
    tree. -/
theorem Check.test_tracks (hhosts : Corresponds roles host rival) (hplace : place.Plays roles) :
    (check : Check) → (∀ key ∈ check.keys, key.isShared = true) → (∀ value ∈ check.values, value.Plays roles .data) →
      Tracks (Both fun _ _ => True) roles (check.test host place) (check.test rival place)
  | .anything, _, _ => Tracks.pure fun _ _ => ⟨rfl, trivial⟩
  | .nothing, _, _ => Tracks.pure fun _ _ => ⟨rfl, trivial⟩
  | .typeName name, _, _ => by
    apply Tracks.store.bind
    intro later first second hlater htwins
    refine Tracks.ofExcept ?_ fun _ _ _ _ => trivial
    have hname : (Value.scalar name).Plays later .data := trivial
    rw [htwins.resembles.typeOf_eq,
      htwins.equal_eq (htwins.typeOf_plays (hplace.1.mono hlater)) hname]
  | .properties fields, hkeys, hvalues => by
    apply Tracks.store.bind
    intro later first second hlater htwins
    refine Tracks.ofExcept ?_ fun _ _ _ _ => trivial
    refine htwins.hasEntries_eq (hplace.1.mono hlater) fields.entries
      (fun entry hentry => hkeys _ (List.mem_map_of_mem hentry)) fun entry hentry => ?_
    obtain ⟨field, hfield, rfl⟩ := List.mem_map.mp hentry
    exact (hvalues field.2 (List.mem_map_of_mem hfield)).mono hlater
  | .pattern entries, hkeys, hvalues => by
    apply Tracks.store.bind
    intro later first second hlater htwins
    refine Tracks.ofExcept ?_ fun _ _ _ _ => trivial
    exact htwins.hasEntries_eq (hplace.1.mono hlater) entries
      (fun entry hentry => hkeys _ (List.mem_map_of_mem hentry)) fun entry hentry =>
        (hvalues entry.2 (List.mem_map_of_mem hentry)).mono hlater
  | .predicate function, _, _ => by
    apply (Tracks.call hhosts function ?_).bind
    · intro later answer other _ hanswer
      obtain ⟨rfl, hplays⟩ := hanswer
      apply Tracks.store.bind
      intro last first second hlast htwins
      exact Tracks.pure fun _ _ =>
        ⟨htwins.isTrue_eq (hplays.mono hlast) (by simp), trivial⟩
    · intro node hnode
      simp only [Call.nodes, List.mem_cons, List.not_mem_nil, or_false] at hnode
      cases hnode with
      | inl hmet => exact hmet ▸ hplace.1
      | inr habove => exact habove ▸ hplace.2
  | .anyOf checks, hkeys, hvalues => Check.testAny_tracks hhosts hplace checks hkeys hvalues
  | .abstract, _, _ => by
    unfold Check.test
    exact Tracks.ofExcept rfl fun _ _ _ _ => trivial

theorem Check.testAny_tracks (hhosts : Corresponds roles host rival) (hplace : place.Plays roles) :
    (checks : List Check) → (∀ key ∈ Check.keysOfAll checks, key.isShared = true) →
      (∀ value ∈ Check.valuesOfAll checks, value.Plays roles .data) →
      Tracks (Both fun _ _ => True) roles (Check.testAny host place checks)
        (Check.testAny rival place checks)
  | [], _, _ => Tracks.pure fun _ _ => ⟨rfl, trivial⟩
  | check :: rest, hkeys, hvalues => by
    rw [Check.keysOfAll, List.forall_mem_append] at hkeys
    rw [Check.valuesOfAll, List.forall_mem_append] at hvalues
    have hrest := Check.testAny_tracks hhosts hplace rest hkeys.2 hvalues.2
    apply (Check.test_tracks hhosts hplace check hkeys.1 hvalues.1).bind
    intro later verdict other hlater hverdict
    obtain ⟨rfl, _⟩ := hverdict
    cases other with
    | true => exact Tracks.pure fun _ _ => ⟨rfl, trivial⟩
    | false => exact hrest.mono hlater

end

/-- Data is read as a test alike in both forms. -/
theorem Check.read_twins {first second : Store} (htwins : first.Twins roles second)
    {test : Value} (htest : test.Plays roles .data) :
    Check.read second test = Check.read first test ∧
      (∀ check, Check.read first test = .plain check →
        ∀ value ∈ check.values, value.Plays roles .data) ∧
      ∀ tests, Check.read first test = .members tests → ∀ test ∈ tests, test.Plays roles .data := by
  cases test with
  | scalar s =>
    refine ⟨by cases s <;> rfl, ?_, ?_⟩
    · intro check hread value hvalue
      cases s <;> cases hread <;> cases hvalue
    · intro tests hread
      cases s <;> cases hread
  | function f =>
    refine ⟨rfl, ?_, ?_⟩
    · intro check hread value hvalue
      cases hread
      cases hvalue
    · intro tests hread
      cases hread
  | cell ref =>
    have hget : second.get? ref = first.get? ref := htwins.cell?_eq htest (by simp)
    have hparts : ∀ cell, first.get? ref = some cell → ∀ part ∈ cell.parts .data,
        part.2.Plays roles .data := by
      intro cell hcell part hpart
      rw [← Cell.parts_data hpart]
      exact htwins.cast.fits ref cell .data hcell htest part hpart
    simp only [Check.read, hget]
    refine ⟨trivial, ?_, ?_⟩
    · intro check hread value hvalue
      split at hread
      · next found hcell =>
        cases hread
        exact hparts _ hcell _ (List.mem_map_of_mem hvalue)
      · next fields hcell =>
        cases hread
        obtain ⟨field, hfield, rfl⟩ := List.mem_map.mp hvalue
        exact hparts _ hcell _ (List.mem_map_of_mem hfield)
      · next entries hcell =>
        cases hread
        obtain ⟨entry, hentry, rfl⟩ := List.mem_map.mp hvalue
        exact hparts _ hcell _ (List.mem_map_of_mem hentry)
      · cases hread
      · cases hread
      · cases hread
    · intro tests hread test hmem
      split at hread
      · cases hread
      · cases hread
      · cases hread
      · next items hcell =>
        cases hread
        exact hparts _ hcell _ (List.mem_map_of_mem hmem)
      · next items hcell =>
        cases hread
        exact hparts _ hcell _ (List.mem_map_of_mem hmem)
      · cases hread

/-- A check made of data. -/
def Check.IsMade (roles : List Role) (check : Check) : Prop :=
  ∀ value ∈ check.values, value.Plays roles .data

theorem Check.convertAll_tracks {convert : Value → Act σ Check} (tests : List Value)
    (htests : ∀ test ∈ tests, test.Plays roles .data)
    (hconvert : ∀ later test, roles <+: later → test.Plays later .data →
      Tracks (Both Check.IsMade) later (convert test) (convert test)) :
    Tracks (Both fun later checks => ∀ value ∈ Check.valuesOfAll checks, value.Plays later .data)
      roles (Check.convertAll convert tests) (Check.convertAll convert tests) := by
  induction tests generalizing roles with
  | nil => exact Tracks.pure fun _ _ => ⟨rfl, fun value hvalue => by cases hvalue⟩
  | cons test rest ih =>
    rw [List.forall_mem_cons] at htests
    apply (hconvert roles test (List.prefix_refl _) htests.1).bind
    intro later check other hlater hcheck
    obtain ⟨rfl, hmade⟩ := hcheck
    apply (ih (fun test hmem => (htests.2 test hmem).mono hlater)
      fun last test hlast => hconvert last test (hlater.trans hlast)).bind
    intro last checks others hlast hchecks
    obtain ⟨rfl, hvalues⟩ := hchecks
    apply Tracks.pure
    intro final hfinal
    refine ⟨rfl, ?_⟩
    dsimp only
    rw [Check.valuesOfAll, List.forall_mem_append]
    exact ⟨fun value hvalue => (hmade value hvalue).mono (hlast.trans hfinal),
      fun value hvalue => (hvalues value hvalue).mono hfinal⟩

/-- A test that is data is converted to the same check in both forms. -/
theorem Check.convertAt_tracks (fuel : Nat) {test : Value} (htest : test.Plays roles .data) :
    Tracks (Both Check.IsMade) roles (Check.convertAt fuel test : Act σ Check)
      (Check.convertAt fuel test) := by
  induction fuel generalizing test roles with
  | zero => exact Tracks.ofExcept rfl fun _ _ _ hnone => by cases hnone
  | succ fuel ih =>
    apply Tracks.store.bind
    intro later first second hlater htwins
    obtain ⟨hread, hplain, hmembers⟩ := Check.read_twins htwins (htest.mono hlater)
    rw [hread]
    cases hreading : Check.read first test with
    | plain check =>
      apply Tracks.pure
      intro last hlast
      exact ⟨rfl, fun value hvalue => (hplain check hreading value hvalue).mono hlast⟩
    | members tests =>
      apply (Check.convertAll_tracks tests (hmembers tests hreading)
        fun last test _ htest => ih htest).bind
      intro last checks others hlast hchecks
      obtain ⟨rfl, hvalues⟩ := hchecks
      apply Tracks.pure
      exact fun final hfinal => ⟨rfl, fun value hvalue => (hvalues value hvalue).mono hfinal⟩
    | unsupported =>
      rw [htwins.write_eq (htest.mono hlater)]
      apply (Tracks.ofExcept rfl fun _ _ _ _ => trivial : Tracks (Both fun _ _ => True) _ _ _).bind
      intro written shown other _ hshown
      obtain ⟨rfl, _⟩ := hshown
      apply (Tracks.record (.same _)).bind
      intro last _ _ _ _
      exact Tracks.pure fun _ _ => ⟨rfl, fun value hvalue => by cases hvalue⟩

theorem Check.convert_tracks {test : Value} (htest : test.Plays roles .data) :
    Tracks (Both Check.IsMade) roles (Check.convert test : Act σ Check) (Check.convert test) := by
  apply Tracks.store.bind
  intro later first second hlater htwins
  rw [htwins.size_eq]
  exact Check.convertAt_tracks _ (htest.mono hlater)

/-- An answer that is data is taken for the same directive in both forms. -/
theorem Directive.ofAnswer_tracks {answer : Value} (hanswer : answer.Plays roles .data) :
    Tracks (Both fun later directive => directive.index.Plays later .data) roles
      (Directive.ofAnswer answer : Act σ Directive) (Directive.ofAnswer answer) := by
  apply Tracks.store.bind
  intro later first second hlater htwins
  obtain ⟨hread, hindex⟩ := Directive.read_plays htwins (hanswer.mono hlater)
  rw [hread]
  cases hreading : Directive.read first answer with
  | some directive =>
    apply Tracks.pure
    exact fun last hlast => ⟨rfl, (hindex directive hreading).mono hlast⟩
  | none =>
    rw [htwins.write_eq (hanswer.mono hlater)]
    apply (Tracks.ofExcept rfl fun _ _ _ _ => trivial : Tracks (Both fun _ _ => True) _ _ _).bind
    intro written shown other _ hshown
    obtain ⟨rfl, _⟩ := hshown
    apply (Tracks.record (.same _)).bind
    intro last _ _ _ _
    exact Tracks.pure fun _ _ => ⟨rfl, trivial⟩

end Checks

end Lineage
