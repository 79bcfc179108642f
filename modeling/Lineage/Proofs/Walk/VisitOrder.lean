import Lineage.Proofs.Tree.InStore
import Lineage.Proofs.Walk.Recursion
import Lineage.Visit

namespace Lineage

section UpTo

variable {α : Type} (pick : α → Bool)

/-- What comes after a member that is picked is cut off. -/
theorem upTo_append (first second : List α) :
    upTo pick (first ++ second) =
      upTo pick first ++ if first.any pick then [] else upTo pick second := by
  induction first with
  | nil => simp [upTo]
  | cons a rest ih =>
    cases hpick : pick a with
    | true => simp [upTo, List.findIdx_cons, hpick]
    | false =>
      simp only [upTo, List.cons_append, List.findIdx_cons, hpick, cond_false, List.take_succ_cons,
        List.any_cons, Bool.false_or] at ih ⊢
      rw [ih]

theorem any_upTo (list : List α) : (upTo pick list).any pick = list.any pick := by
  induction list with
  | nil => simp [upTo]
  | cons a rest ih =>
    cases hpick : pick a with
    | true => simp [upTo, List.findIdx_cons, hpick]
    | false =>
      simp only [upTo, List.findIdx_cons, hpick, cond_false, List.take_succ_cons, List.any_cons,
        Bool.false_or] at ih ⊢
      exact ih

end UpTo

variable {σ : Type}

/-- An answer that is understood, or that can be written when it is reported. -/
def Store.Settles (store : Store) (answer : Value) : Prop :=
  Directive.read store answer = none → store.unwritable? answer = none

theorem Store.settles_of_read {store : Store} {answer : Value} {directive : Directive}
    (hread : Directive.read store answer = some directive) : store.Settles answer := by
  intro hnone
  rw [hread] at hnone
  cases hnone

/-- Called on one spot after another, a visitor keeps the store as it is to be
    kept and gives each spot the answer that is laid down for its path, without
    an index. It may keep a state of its own; the journal is nothing to it. -/
inductive Answers (host : Host σ) (visitor : Value) (kept : Store → Prop)
    (answer : List Nat → Action) : Store × σ → List Spot → Store × σ → Prop where
  | nil (state : Store × σ) : Answers host visitor kept answer state [] state
  | cons {state middle last : Store × σ} {spot : Spot} {rest : List Spot} {value : Value}
      (hcall : ∀ journal,
        callVisitor host .lineage visitor spot.place spot.lineage ⟨state.1, journal, state.2⟩ =
          .ok value ⟨middle.1, journal, middle.2⟩)
      (hkept : kept middle.1)
      (hsettles : middle.1.Settles value)
      (hreads : (Directive.read middle.1 value).getD {} = ⟨.action (answer spot.path), .null⟩)
      (hrest : Answers host visitor kept answer middle rest last) :
      Answers host visitor kept answer state (spot :: rest) last

/-- What a walk did when the visitor was called on some spots: the visitor left
    the store and its own state so, and the calls are told of. -/
structure Toured (world : World σ) (spots : List Spot) (last : Store × σ) (final : World σ) :
    Prop where
  state : (final.store, final.user) = last
  visits : visitsOf final.journal =
    (spots.map fun spot => (spot.place, spot.lineage)).reverse ++ visitsOf world.journal

/-- Tours made one after the other are one tour. -/
theorem Toured.trans {world middle final : World σ} {first second : List Spot}
    {state last : Store × σ} (hfirst : Toured world first state middle)
    (hsecond : Toured middle second last final) :
    Toured world (first ++ second) last final where
  state := hsecond.state
  visits := by
    rw [hsecond.visits, hfirst.visits, List.map_append, List.reverse_append, List.append_assoc]

theorem Toured.told {world final : World σ} {spots : List Spot} {last : Store × σ}
    (htour : Toured world spots last final) (message : String) :
    Toured world spots last (final.told message) where
  state := htour.state
  visits := by
    rw [← htour.visits]
    simp [visitsOf, World.told]

theorem Toured.refl (world : World σ) : Toured world [] (world.store, world.user) world where
  state := rfl
  visits := by simp

section Answers

variable {host : Host σ} {visitor : Value} {kept : Store → Prop} {answer : List Nat → Action}

/-- Answers to two lists of spots, one after the other. -/
theorem Answers.split {state last : Store × σ} {first second : List Spot}
    (hanswers : Answers host visitor kept answer state (first ++ second) last) :
    ∃ middle, Answers host visitor kept answer state first middle ∧
      Answers host visitor kept answer middle second last := by
  induction first generalizing state with
  | nil => exact ⟨state, .nil state, hanswers⟩
  | cons spot rest ih =>
    cases hanswers with
    | cons hcall hkept hsettles hreads hrest =>
      obtain ⟨middle, hfirst, hsecond⟩ := ih hrest
      exact ⟨middle, .cons hcall hkept hsettles hreads hfirst, hsecond⟩

/-- After any number of answers the store is as it is to be kept. -/
theorem Answers.kept_last {state last : Store × σ} {spots : List Spot}
    (hanswers : Answers host visitor kept answer state spots last) (hstate : kept state.1) :
    kept last.1 := by
  induction hanswers with
  | nil => exact hstate
  | cons _ hkept _ _ _ ih => exact ih hkept

theorem Toured.kept_final {world final : World σ} {spots : List Spot} {last : Store × σ}
    (htour : Toured world spots last final)
    (hanswers : Answers host visitor kept answer (world.store, world.user) spots last)
    (hworld : kept world.store) : kept final.store := by
  have hlast := hanswers.kept_last hworld
  rw [← htour.state] at hlast
  exact hlast

end Answers

namespace Walker

/-- Of the spots that a walk reaches those on which the visitor is called: the
    ones that pass, up to the first exit. -/
def called (passes : Place → Bool) (answer : List Nat → Action) (reached : List Spot) :
    List Spot :=
  upTo (fun spot => answer spot.path == .exit) (reached.filter fun spot => passes spot.place)

/-- Whether one of the calls ends the walk. -/
def exits (answer : List Nat → Action) (spots : List Spot) : Bool :=
  spots.any fun spot => answer spot.path == .exit

/-- A part of a recursive walk that reaches some spots: it calls the visitor on
    those that pass and ends there, unless an answer at one of them has ended
    the walk. -/
def Covers {α : Type} (host : Host σ) (visitor : Value) (kept : Store → Prop)
    (passes : Place → Bool) (answer : List Nat → Action) (part : Visiting σ α) (a : α)
    (reached : List Spot) : Prop :=
  ∀ world last, kept world.store →
    Answers host visitor kept answer (world.store, world.user) (called passes answer reached)
      last →
    ∃ final, Toured world (called passes answer reached) last final ∧
      if exits answer (called passes answer reached) then
        ∃ spot ∈ called passes answer reached, answer spot.path = .exit ∧
          part world = .error (.exited spot.place) final
      else part world = .ok a final

section Composition

variable {α β : Type} {host : Host σ} {visitor : Value} {kept : Store → Prop}
  {passes : Place → Bool} {answer : List Nat → Action}

/-- The calls on two lists of spots: after an exit there are none. -/
theorem called_append (first second : List Spot) :
    called passes answer (first ++ second) =
      called passes answer first ++
        if exits answer (called passes answer first) then [] else called passes answer second := by
  rw [called, List.filter_append, upTo_append, exits, called, any_upTo]
  rfl

theorem exits_append (first second : List Spot) :
    exits answer (first ++ second) = (exits answer first || exits answer second) := by
  simp [exits]

/-- A part that reaches nothing does nothing. -/
theorem Covers.pure (a : α) : Covers host visitor kept passes answer (pure a) a [] := by
  intro world last _ hanswers
  cases hanswers
  exact ⟨world, ⟨rfl, by simp [called, upTo]⟩, rfl⟩

/-- Two parts, one after the other, reach what both reach. -/
theorem Covers.bind {part : Visiting σ α} (next : α → Visiting σ β) {a : α} {b : β}
    {first second : List Spot}
    (hfirst : Covers host visitor kept passes answer part a first)
    (hsecond : Covers host visitor kept passes answer (next a) b second) :
    Covers host visitor kept passes answer (part >>= next) b (first ++ second) := by
  intro world last hkept hanswers
  rw [called_append] at hanswers ⊢
  obtain ⟨state, hbefore, hafter⟩ := hanswers.split
  obtain ⟨middle, htour, hpart⟩ := hfirst world state hkept hbefore
  cases hexit : exits answer (called passes answer first) with
  | true =>
    rw [hexit, if_pos rfl] at hafter hpart
    cases hafter
    obtain ⟨spot, hspot, hanswer, hpart⟩ := hpart
    rw [if_pos rfl, List.append_nil]
    refine ⟨middle, htour, ?_⟩
    rw [if_pos hexit]
    refine ⟨spot, hspot, hanswer, ?_⟩
    show EStateM.bind part next world = _
    simp only [EStateM.bind, hpart]
  | false =>
    simp only [hexit, Bool.false_eq_true, if_false] at hafter hpart ⊢
    obtain ⟨final, hmore, hnext⟩ := hsecond middle last (htour.kept_final hbefore hkept)
      (htour.state.symm ▸ hafter)
    refine ⟨final, htour.trans hmore, ?_⟩
    have hbind : (part >>= next) world = next a middle := by
      show EStateM.bind part next world = _
      simp only [EStateM.bind, hpart]
    rw [exits_append, hexit, Bool.false_or]
    split at hnext
    · next hlater =>
      obtain ⟨spot, hspot, hanswer, hnext⟩ := hnext
      rw [if_pos hlater]
      exact ⟨spot, List.mem_append_right _ hspot, hanswer, hbind.trans hnext⟩
    · next hlater =>
      rw [if_neg hlater]
      exact hbind.trans hnext

/-- What a part covers is settled by what it does while the store is kept. -/
theorem Covers.congr {α : Type} {part : Visiting σ α} (other : Visiting σ α) {a : α}
    {reached : List Spot}
    (hsame : ∀ world, kept world.store → part world = other world)
    (hcovers : Covers host visitor kept passes answer other a reached) :
    Covers host visitor kept passes answer part a reached := by
  intro world last hkept hanswers
  rw [hsame world hkept]
  exact hcovers world last hkept hanswers

end Composition

section Node

/-- The check only looks at a spot, and its verdict is a matter of the place. -/
def Judges (walker : Walker σ) (kept : Store → Prop) (passes : Place → Bool) (spot : Spot) :
    Prop :=
  ∀ world, kept world.store → walker.check spot.place world = .ok (passes spot.place) world

/-- An answer that is neither understood nor can be written fails the walk. -/
theorem ofAnswer_fails {value : Value} {world : World σ} {fault : Fault}
    (hread : Directive.read world.store value = none)
    (hwrite : world.store.unwritable? value = some fault) :
    Directive.ofAnswer value world = .error fault world := by
  simp only [Directive.ofAnswer, Act.store, Act.ofExcept, Store.write, bind, EStateM.bind, hread,
    hwrite]
  rfl

/-- What an answer comes to: the directive that is understood, none if nothing
    is, or a failure if that cannot be reported. -/
def heard (store : Store) (value : Value) : Except Fault Directive :=
  match Directive.read store value, store.unwritable? value with
  | none, some fault => .error fault
  | none, none => .ok {}
  | some directive, _ => .ok directive

/-- What is understood of an answer settles the directive; a message about an
    answer that is not understood is no call. -/
theorem ofAnswer_keeps_calls {value : Value} {world : World σ}
    (hsettles : world.store.Settles value) :
    ∃ journal, callsIn journal = callsIn world.journal ∧
      Directive.ofAnswer value world =
        .ok ((Directive.read world.store value).getD {}) { world with journal } := by
  rcases hread : Directive.read world.store value with _ | directive
  · refine ⟨.said .debug ("Ignoring unrecognized visitor result " ++ world.store.shown value) ::
      world.journal, by simp [callsIn], ?_⟩
    have hwrite : world.store.write value = .ok (world.store.shown value) := by
      simp only [Store.write, hsettles hread]
      rfl
    simp only [Directive.ofAnswer, Act.store, Act.say, Act.record, Act.ofExcept, bind,
      EStateM.bind, pure, EStateM.pure, hread, hwrite, Option.getD_none]
  · refine ⟨world.journal, rfl, ?_⟩
    simp only [Directive.ofAnswer, Act.store, bind, EStateM.bind, pure, EStateM.pure, hread,
      Option.getD_some]

theorem ofAnswer_heard (value : Value) (world : World σ) :
    ∃ journal, callsIn journal = callsIn world.journal ∧
      Directive.ofAnswer value world =
        Act.ofExcept (heard world.store value) { world with journal } := by
  unfold heard
  split
  · next hread hwrite => exact ⟨world.journal, rfl, ofAnswer_fails hread hwrite⟩
  · next hread hwrite =>
    have hsettled := @ofAnswer_keeps_calls _ value world fun _ => hwrite
    rwa [hread] at hsettled
  · next hread =>
    have hsettled := @ofAnswer_keeps_calls _ value world fun hnone => by
      cases hread.symm.trans hnone
    rwa [hread] at hsettled

/-- An answer settles the directive that is read, none if none is, or it fails. -/
theorem heard_cases (store : Store) (value : Value) :
    (∃ directive, heard store value = .ok directive ∧
        (Directive.read store value).getD {} = directive ∧ store.Settles value) ∨
      ∃ fault, heard store value = .error fault ∧ ¬ store.Settles value := by
  unfold heard Store.Settles
  cases hread : Directive.read store value with
  | some directive => exact .inl ⟨directive, rfl, rfl, by simp⟩
  | none =>
    cases hwrite : store.unwritable? value with
    | none => exact .inl ⟨{}, rfl, rfl, by simp⟩
    | some fault => exact .inr ⟨fault, rfl, by simp⟩

theorem ofAnswer_settles {value : Value} {world : World σ}
    (hsettles : world.store.Settles value) :
    ∃ journal, visitsOf journal = visitsOf world.journal ∧
      Directive.ofAnswer value world =
        .ok ((Directive.read world.store value).getD {}) { world with journal } := by
  obtain ⟨journal, hcalls, hsettled⟩ := ofAnswer_keeps_calls hsettles
  refine ⟨journal, ?_, hsettled⟩
  rw [← visitsOf_callsIn journal, hcalls, visitsOf_callsIn]

theorem consult_rejected (walker : Walker σ) {place : Place} {lineage : List Value}
    {world later : World σ}
    (hcheck : walker.check place { world with journal := .offered place :: world.journal } =
      .ok false later) :
    walker.consult place lineage world = .ok {} later := by
  simp [consult, Act.record, bind, EStateM.bind, pure, EStateM.pure, hcheck]

/-- A node that passes is visited in the world that the check leaves. -/
theorem consult_called (walker : Walker σ) {place : Place} {lineage : List Value}
    {world checked later : World σ} {value : Value}
    (hcheck : walker.check place { world with journal := .offered place :: world.journal } =
      .ok true checked)
    (hvisit : walker.visit place lineage
      { checked with journal := .visited place lineage :: checked.journal } = .ok value later) :
    walker.consult place lineage world = Directive.ofAnswer value later := by
  simp [consult, Act.record, bind, EStateM.bind, hcheck, hvisit]

theorem one_of_consult (walker : Walker σ) {place : Place} {lineage : List Value}
    {world final : World σ} {directive : Directive}
    (hconsult : walker.consult place lineage world = .ok directive final) :
    walker.one place lineage world = .ok directive final := by
  unfold one
  split
  · simp [Act.rescue, hconsult]
  · exact hconsult

variable {host : Host σ} {visitor : Value} {kept : Store → Prop} {passes : Place → Bool}
  {answer : List Nat → Action} {walker : Walker σ}
  (hvisit : ∀ place lineage,
    walker.visit place lineage = callVisitor host .lineage visitor place lineage)

include hvisit

/-- Dealing with one spot calls the visitor on it if it passes, and the answer
    laid down for it is what it asks of the walk. -/
theorem one_answered {spot : Spot} (hjudges : walker.Judges kept passes spot)
    {world : World σ} {last : Store × σ} (hkept : kept world.store)
    (hanswers : Answers host visitor kept answer (world.store, world.user)
      (called passes answer [spot]) last) :
    ∃ directive final, walker.one spot.place spot.lineage world = .ok directive final ∧
      Toured world (called passes answer [spot]) last final ∧ directive.index = .null ∧
      (directive.action = .action .exit ↔ exits answer (called passes answer [spot]) = true) ∧
      (directive.action = .action .skip ↔
        (passes spot.place && answer spot.path == .skip) = true) := by
  -- A node is put on record before the test sees it.
  let offered : World σ := { world with journal := .offered spot.place :: world.journal }
  have hcheck := hjudges offered hkept
  cases hpasses : passes spot.place with
  | false =>
    rw [hpasses] at hcheck
    have hnone : called passes answer [spot] = [] := by simp [called, hpasses, upTo]
    rw [hnone] at hanswers ⊢
    cases hanswers
    refine ⟨{}, offered, ?_, ⟨rfl, by simp [visitsOf, offered]⟩, rfl, ?_, ?_⟩
    · exact walker.one_of_consult (walker.consult_rejected hcheck)
    · simp [exits]
    · simp
  | true =>
    rw [hpasses] at hcheck
    have hsingle : called passes answer [spot] = [spot] := by simp [called, hpasses, upTo]
    rw [hsingle] at hanswers ⊢
    cases hanswers with
    | @cons _ _ _ _ _ value hcall hkept hsettles hreads hrest =>
      cases hrest
      let visited : World σ :=
        ⟨last.1, .visited spot.place spot.lineage :: offered.journal, last.2⟩
      obtain ⟨journal, hjournal, hsettled⟩ := @ofAnswer_settles σ value visited hsettles
      refine ⟨(Directive.read last.1 value).getD {}, { visited with journal }, ?_,
        ⟨rfl, ?_⟩, ?_⟩
      · have hcalled : walker.visit spot.place spot.lineage
            { offered with journal := .visited spot.place spot.lineage :: offered.journal } =
              .ok value visited := by
          rw [hvisit]
          exact hcall _
        apply one_of_consult
        rw [walker.consult_called hcheck hcalled]
        exact hsettled
      · rw [hjournal]
        simp [visitsOf, visited, offered]
      · rw [hreads]
        simp [exits]

/-- Visiting a node reaches it and then, unless they are left out, all that
    visiting its children reaches. -/
theorem visitOne_covers (spot : Spot) (hjudges : walker.Judges kept passes spot)
    {loop : List Value → Value → Value → Visiting σ Unit} {below : List Spot}
    (hbelow :
      ((∀ store, kept store → store.children spot.place.node = .null) ∧ below = []) ∨
      ∃ cursor, (∀ store, kept store → store.children spot.place.node ≠ .null ∧
          walker.startOf store (store.children spot.place.node) = .ok cursor) ∧
        Covers host visitor kept passes answer
          (loop (spot.place.node :: spot.lineage) spot.place.node cursor) () below) :
    Covers host visitor kept passes answer (walker.visitOne loop spot.lineage spot.place) .null
      (spot :: if passes spot.place && answer spot.path == .skip then [] else below) := by
  intro world last hkept hanswers
  rw [← List.singleton_append, called_append] at hanswers ⊢
  obtain ⟨state, hfirst, hrest⟩ := hanswers.split
  obtain ⟨directive, middle, hone, htour, hindex, hexit, hskip⟩ :=
    one_answered hvisit hjudges hkept hfirst
  have hmiddle : kept middle.store := htour.kept_final hfirst hkept
  by_cases hexits : exits answer (called passes answer [spot]) = true
  · rw [if_pos hexits] at hrest ⊢
    cases hrest
    have hcalled : spot ∈ called passes answer [spot] ∧ answer spot.path = .exit := by
      obtain ⟨other, hother, hanswer⟩ := List.any_eq_true.mp hexits
      obtain rfl := List.mem_singleton.mp (List.mem_filter.mp (List.mem_of_mem_take hother)).1
      exact ⟨hother, eq_of_beq hanswer⟩
    rw [List.append_nil]
    refine ⟨middle, htour, ?_⟩
    rw [if_pos hexits]
    exact ⟨spot, hcalled.1, hcalled.2, visitOne_exits walker _ _ _ hone (hexit.mpr hexits)⟩
  · rw [if_neg hexits] at hrest ⊢
    have hgoes : directive.action ≠ .action .exit := fun h => hexits (hexit.mp h)
    rw [exits_append, Bool.eq_false_iff.mpr hexits, Bool.false_or]
    by_cases hprune : (passes spot.place && answer spot.path == .skip) = true
    · rw [if_pos hprune] at hrest ⊢
      cases hrest
      refine ⟨middle, by simpa [called, upTo] using htour, ?_⟩
      rw [visitOne_stays walker _ _ _ hone hgoes (Or.inr (hskip.mpr hprune)), hindex]
      rfl
    · rw [if_neg hprune] at hrest ⊢
      -- The visitor may have changed the store, but not what the children are.
      have hdown : directive.action ≠ .action .skip := fun h => hprune (hskip.mp h)
      rcases hbelow with ⟨hleaf, rfl⟩ | ⟨cursor, hparent, hcovers⟩
      · cases hrest
        refine ⟨middle, by simpa [called, upTo] using htour, ?_⟩
        rw [visitOne_stays walker _ _ _ hone hgoes (Or.inl (hleaf _ hmiddle)), hindex]
        rfl
      · obtain ⟨final, hmore, hloop⟩ := hcovers middle last hmiddle (htour.state.symm ▸ hrest)
        obtain ⟨hchildren, hstart⟩ := hparent middle.store hmiddle
        refine ⟨final, htour.trans hmore, ?_⟩
        have henter : ¬ (middle.store.children spot.place.node = .null ∨
            directive.action = .action .skip) := fun h => h.elim hchildren hdown
        rw [visitOne_descends walker _ _ _ hone hgoes henter hstart]
        split at hloop
        · next hbelow =>
          obtain ⟨other, hother, hanswer, hloop⟩ := hloop
          rw [if_pos hbelow]
          refine ⟨other, List.mem_append_right _ hother, hanswer, ?_⟩
          simp only [bind, EStateM.bind, hloop]
        · next hbelow =>
          rw [if_neg hbelow]
          simp only [bind, EStateM.bind, pure, EStateM.pure, hloop, hindex]

end Node

end Walker

/-- A visit of a tree whose root cannot be labelled fails before any call but
    those for the test itself. -/
theorem visit_fails_untold (host : Host σ) (manner : Manner) (annotate : Bool)
    {arguments : Arguments} {request : Request} {check : Check} {tree : Value}
    {world converted : World σ} {fault : Fault}
    (hresolve : arguments.resolve world.store = .ok request)
    (hconvert : Check.convert request.test world = .ok check converted)
    (hhead : converted.store.unwritable? (converted.store.head tree) = some fault) (fuel : Nat) :
    visit host manner arguments annotate fuel tree world = some (.error fault converted) := by
  simp only [visit, hresolve, hconvert]
  exact Walker.walk_announce_fails _ (Walker.announce_fails _ hhead) fuel

end Lineage
