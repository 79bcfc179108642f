import Lineage.Proofs.Walk.OnwardIndices

namespace Lineage

variable {σ : Type}

/-- The messages between which all that a walk does takes place. -/
inductive Bookend where
  | opening
  | closing
  deriving DecidableEq

/-- The bookend that an entry is, told by the first words of its message. -/
def Entry.bookend? : Entry → Option Bookend
  | .said _ message =>
    if "Starting traversal".toList.isPrefixOf message.toList then some .opening
    else if "Traversal ".toList.isPrefixOf message.toList then some .closing
    else none
  | _ => none

/-- The bookends of a journal, the newest first. -/
def bookendsIn (journal : List Entry) : List Bookend :=
  journal.filterMap Entry.bookend?

@[simp] theorem bookendsIn_append (later earlier : List Entry) :
    bookendsIn (later ++ earlier) = bookendsIn later ++ bookendsIn earlier :=
  List.filterMap_append

theorem bookendsIn_cons {entry : Entry} {bookend : Bookend}
    (hentry : entry.bookend? = some bookend) (journal : List Entry) :
    bookendsIn (entry :: journal) = bookend :: bookendsIn journal :=
  List.filterMap_cons_some hentry

@[simp] theorem offeredOf_append (later earlier : List Entry) :
    offeredOf (later ++ earlier) = offeredOf later ++ offeredOf earlier :=
  List.filterMap_append

@[simp] theorem offeredOf_said (severity : Severity) (message : String) (journal : List Entry) :
    offeredOf (.said severity message :: journal) = offeredOf journal :=
  rfl

/-- One journal goes on from another without a bookend, and by what was added
    these places were put to the check, the newest first. -/
def Continues (earlier : List Entry) (offers : List Place) (later : List Entry) : Prop :=
  ∃ during, later = during ++ earlier ∧ bookendsIn during = [] ∧ offeredOf during = offers

namespace Continues

variable {earlier middle later : List Entry} {first second : List Place}

theorem refl (journal : List Entry) : Continues journal [] journal :=
  ⟨[], rfl, rfl, rfl⟩

theorem trans (hfirst : Continues earlier first middle) (hsecond : Continues middle second later) :
    Continues earlier (second ++ first) later := by
  obtain ⟨before, rfl, hbefore, rfl⟩ := hfirst
  obtain ⟨after, rfl, hafter, rfl⟩ := hsecond
  exact ⟨after ++ before, (List.append_assoc ..).symm, by simp [hbefore, hafter], by simp⟩

/-- One entry more that is no bookend. -/
theorem entry {entry : Entry} (hentry : entry.bookend? = none) (journal : List Entry) :
    Continues journal (offeredOf [entry]) (entry :: journal) :=
  ⟨[entry], rfl, by simp [bookendsIn, hentry], rfl⟩

end Continues

namespace Act

variable {α β : Type}

/-- The world that an activity leaves, whether it fails or not. -/
def leaves (act : Act σ α) (world : World σ) : World σ :=
  match act world with
  | .ok _ later => later
  | .error _ later => later

/-- An activity that puts these places to the check, whether it fails or not,
    and that adds no bookend. -/
def Puts (act : Act σ α) (offers : List Place) : Prop :=
  ∀ world, Continues world.journal offers (act.leaves world).journal

theorem Puts.pure (a : α) : (Pure.pure a : Act σ α).Puts [] :=
  fun world => .refl world.journal

theorem Puts.store : (Act.store : Act σ Store).Puts [] :=
  fun world => .refl world.journal

theorem Puts.ofExcept (result : Except Fault α) : (Act.ofExcept result : Act σ α).Puts [] := by
  cases result <;> exact fun world => .refl world.journal

theorem Puts.alloc (cell : Cell) : (Act.alloc cell : Act σ Value).Puts [] :=
  fun world => .refl world.journal

/-- A function of the caller sees no journal. -/
theorem Puts.call (host : Host σ) (function : Nat) (arguments : Call) :
    (Act.call host function arguments).Puts [] := by
  intro world
  unfold leaves Act.call
  rcases host function arguments (world.store, world.user) with ⟨value, state⟩ | ⟨fault, state⟩ <;>
    exact .refl world.journal

theorem Puts.record {entry : Entry} (hentry : entry.bookend? = none) :
    (Act.record entry : Act σ Unit).Puts (offeredOf [entry]) :=
  fun world => .entry hentry world.journal

/-- An activity with a sequel that puts nothing more to the check. -/
theorem Puts.bind {act : Act σ α} {next : α → Act σ β} {offers : List Place}
    (hact : act.Puts offers) (hnext : ∀ a, (next a).Puts []) : (act >>= next).Puts offers := by
  intro world
  have hfirst := hact world
  unfold leaves at hfirst ⊢
  simp only [Bind.bind, EStateM.bind]
  rcases hresult : act world with ⟨a, middle⟩ | ⟨fault, middle⟩
  · rw [hresult] at hfirst
    exact hfirst.trans (hnext a middle)
  · rw [hresult] at hfirst
    exact hfirst

theorem Puts.rescue {act : Act σ α} {handle : Fault → Act σ α} {offers : List Place}
    (hact : act.Puts offers) (hhandle : ∀ fault, (handle fault).Puts []) :
    (Act.rescue act handle).Puts offers := by
  intro world
  have hfirst := hact world
  unfold leaves at hfirst ⊢
  simp only [Act.rescue]
  rcases hresult : act world with ⟨a, middle⟩ | ⟨fault, middle⟩
  · rw [hresult] at hfirst
    exact hfirst
  · rw [hresult] at hfirst
    exact hfirst.trans (hhandle fault middle)

section Results

variable {act : Act σ α} {offers : List Place} {world later : World σ} (hact : act.Puts offers)

include hact

theorem Puts.of_ok {a : α} (hresult : act world = .ok a later) :
    Continues world.journal offers later.journal := by
  have hleaves := hact world
  rwa [leaves, hresult] at hleaves

theorem Puts.of_error {fault : Fault} (hresult : act world = .error fault later) :
    Continues world.journal offers later.journal := by
  have hleaves := hact world
  rwa [leaves, hresult] at hleaves

end Results

end Act

section Checks

mutual

/-- A check asks its functions and reads the store, and says nothing. -/
theorem Check.test_puts (host : Host σ) (place : Place) : ∀ check : Check,
    (check.test host place).Puts []
  | .anything => .pure true
  | .nothing => .pure false
  | .typeName _ => by
    rw [Check.test]
    exact .bind .store fun _ => .ofExcept _
  | .properties _ => by
    rw [Check.test]
    exact .bind .store fun _ => .ofExcept _
  | .pattern _ => by
    rw [Check.test]
    exact .bind .store fun _ => .ofExcept _
  | .predicate function => by
    rw [Check.test]
    exact .bind (.call host function _) fun _ => .bind .store fun _ => .pure _
  | .anyOf checks => by
    rw [Check.test]
    exact Check.testAny_puts host place checks
  | .abstract => by
    rw [Check.test]
    exact .ofExcept _

theorem Check.testAny_puts (host : Host σ) (place : Place) : ∀ checks : List Check,
    (Check.testAny host place checks).Puts []
  | [] => .pure false
  | check :: rest => by
    rw [Check.testAny]
    refine .bind (Check.test_puts host place check) fun passed => ?_
    split
    · exact .pure true
    · exact Check.testAny_puts host place rest

end

theorem callVisitor_puts (host : Host σ) (manner : Manner) (visitor : Value) (place : Place)
    (lineage : List Value) : (callVisitor host manner visitor place lineage).Puts [] := by
  unfold callVisitor
  split
  · split <;> exact .call host _ _
  · refine .bind .store fun store => ?_
    split
    · split
      · exact .bind (.alloc _) fun _ => .bind (Check.test_puts host _ _) fun _ => .pure _
      · exact .bind (Check.test_puts host _ _) fun _ => .pure _
    · exact .pure _

/-- The messages on a walk that are no bookends begin with other words. -/
theorem bookend?_unsupported (severity : Severity) (shown : String) :
    (Entry.said severity ("Unsupported test " ++ shown ++ "; it will match nothing")).bookend? =
      none := by
  simp [Entry.bookend?]

theorem bookend?_ignoring (severity : Severity) (shown : String) :
    (Entry.said severity ("Ignoring unrecognized visitor result " ++ shown)).bookend? = none := by
  simp [Entry.bookend?]

theorem Directive.ofAnswer_puts (answer : Value) :
    (Directive.ofAnswer answer : Act σ Directive).Puts [] := by
  refine .bind .store fun store => ?_
  split
  · exact .pure _
  · exact .bind (.ofExcept _) fun _ => .bind (.record (bookend?_ignoring _ _)) fun _ => .pure _

theorem Check.convertAll_puts {convert : Value → Act σ Check}
    (hconvert : ∀ test, (convert test).Puts []) : ∀ tests, (Check.convertAll convert tests).Puts []
  | [] => .pure []
  | test :: rest =>
    .bind (hconvert test) fun _ => .bind (Check.convertAll_puts hconvert rest) fun _ => .pure _

/-- Converting a test reports what is no test, and that is no bookend. -/
theorem Check.convertAt_puts (fuel : Nat) (test : Value) :
    (Check.convertAt fuel test : Act σ Check).Puts [] := by
  induction fuel generalizing test with
  | zero => exact .ofExcept _
  | succ fuel ih =>
    refine .bind .store fun store => ?_
    split
    · exact .pure _
    · exact .bind (Check.convertAll_puts ih _) fun _ => .pure _
    · exact .bind (.ofExcept _) fun _ =>
        .bind (.record (bookend?_unsupported _ _)) fun _ => .pure _

theorem Check.convert_puts (test : Value) : (Check.convert test : Act σ Check).Puts [] :=
  .bind .store fun _ => Check.convertAt_puts _ test

end Checks

/-- The message with which a walk opens. -/
def openingLine (store : Store) (reverse : Bool) (tree : Value) : String :=
  "Starting traversal at " ++ store.display (store.label tree) ++ " (reverse=" ++
    (Scalar.bool reverse).shown ++ ")"

/-- The message with which a walk closes, after these places were put to the
    check, the newest first. -/
def Ending.closingLine (store : Store) (offers : List Place) : Ending → String
  | .finished => "Traversal finished, " ++ toString offers.length ++ " nodes walked"
  | .exited =>
    match offers with
    | place :: _ :: _ =>
      "Traversal exited at " ++ store.display (store.label place.node) ++ " after " ++
        toString offers.length ++ " nodes"
    | _ => "Traversal exited at root"

theorem bookend?_starting (severity : Severity) (rest : String) :
    (Entry.said severity ("Starting traversal at " ++ rest)).bookend? = some .opening := by
  simp [Entry.bookend?]

theorem bookend?_finished (severity : Severity) (rest : String) :
    (Entry.said severity ("Traversal finished, " ++ rest)).bookend? = some .closing := by
  simp [Entry.bookend?]

theorem bookend?_exited (severity : Severity) (rest : String) :
    (Entry.said severity ("Traversal exited at " ++ rest)).bookend? = some .closing := by
  simp [Entry.bookend?]

theorem bookend?_openingLine (store : Store) (reverse : Bool) (tree : Value) :
    (Entry.said .debug (openingLine store reverse tree)).bookend? = some .opening := by
  unfold openingLine
  rw [String.append_assoc, String.append_assoc, String.append_assoc]
  exact bookend?_starting _ _

theorem bookend?_closingLine (store : Store) (offers : List Place) (ending : Ending) :
    (Entry.said .debug (ending.closingLine store offers)).bookend? = some .closing := by
  unfold Ending.closingLine
  split
  · rw [String.append_assoc]
    exact bookend?_finished _ _
  · split
    · rw [String.append_assoc, String.append_assoc, String.append_assoc]
      exact bookend?_exited _ _
    · simp [Entry.bookend?]

namespace Walker

/-- A walk whose check and visitor say nothing themselves. -/
structure Discreet (walker : Walker σ) : Prop where
  check : ∀ place, (walker.check place).Puts []
  visit : ∀ place lineage, (walker.visit place lineage).Puts []

/-- The places that a walk has put to the check before a turn, the newest
    first: the root, and for every turn the child at the cursor unless there is
    none or it is null. -/
def reached (walker : Walker σ) (tree : Value) (world : World σ) : Nat → List Place
  | 0 => [{ node := tree }]
  | turns + 1 =>
    ((walker.stageAt tree world turns).bind Stage.meeting?).toList ++
      walker.reached tree world turns

/-- A stage at which these places were put to the check, and as many counted. -/
structure Stage.Counts (opened : List Entry) (offers : List Place) (stage : Stage σ) : Prop where
  journal : Continues opened offers stage.world.journal
  walked : stage.descent.walked = offers.length

/-- How a walk goes on or ends once these places were put to the check: it has
    counted them, it closes with a line about them, or it fails without one. -/
def Accounts (opened : List Entry) (offers : List Place) :
    EStateM.Result Fault (World σ) Step → Prop
  | .ok (.more descent) later => Stage.Counts opened offers ⟨descent, later⟩
  | .ok (.done ending) final => ∃ last : World σ, Continues opened offers last.journal ∧
      final = last.told (ending.closingLine last.store offers)
  | .error _ final => Continues opened offers final.journal

section Turns

variable {walker : Walker σ} {opened : List Entry} {offers : List Place}

theorem Discreet.consult (hdiscreet : walker.Discreet) (place : Place) (lineage : List Value) :
    (walker.consult place lineage).Puts [place] := by
  refine .bind (.record rfl) fun _ => .bind (hdiscreet.check place) fun passed => ?_
  split
  · exact .bind (.record rfl) fun _ => .bind (hdiscreet.visit place lineage) fun answer =>
      Directive.ofAnswer_puts answer
  · exact .pure _

theorem Discreet.one (hdiscreet : walker.Discreet) (place : Place) (lineage : List Value) :
    (walker.one place lineage).Puts [place] := by
  unfold Walker.one
  split
  · exact .rescue (hdiscreet.consult place lineage) fun fault =>
      .bind .store fun store => .ofExcept _
  · exact hdiscreet.consult place lineage

/-- Going down into a node puts nothing to the check and counts nothing. -/
theorem Stage.Counts.enter {descent : Descent} {world : World σ}
    (hcounts : Stage.Counts opened offers ⟨descent, world⟩) (node : Value)
    (directive : Directive) :
    Accounts opened offers
      ((walker.enter descent node directive >>= fun next => pure (.more next)) world) := by
  simp only [bind, EStateM.bind]
  by_cases hstay : world.store.children node = .null ∨ directive.action = .action .skip
  · rw [enter_stays walker descent node directive world hstay]
    exact hcounts
  · rcases hstart : walker.startOf world.store (world.store.children node) with fault | cursor
    · rw [enter_fails walker descent node directive world hstay hstart]
      exact hcounts.journal
    · rw [enter_descends walker descent node directive world hstay hstart]
      exact ⟨hcounts.journal, hcounts.walked⟩

/-- What a turn does is accounted for: the place that it meets is put to the
    check once and counted once. -/
theorem Discreet.step (hdiscreet : walker.Discreet) {stage : Stage σ}
    (hcounts : stage.Counts opened offers) (hroot : offers ≠ []) :
    Accounts opened (stage.meeting?.toList ++ offers)
      (walker.step stage.descent stage.world) := by
  obtain ⟨⟨frames, lineage, walked⟩, world⟩ := stage
  obtain ⟨hjournal, rfl⟩ := hcounts
  cases frames with
  | nil =>
    rw [step_finished]
    exact ⟨world, hjournal, rfl⟩
  | cons frame outer =>
    rcases hchild : world.store.childAt (world.store.children frame.parent) frame.cursor with
      fault | child
    · rw [step_fails walker hchild]
      simp only [Stage.meeting?, hchild]
      exact hjournal
    · cases child with
      | none =>
        rw [step_leaves walker hchild]
        simp only [Stage.meeting?, hchild]
        exact ⟨hjournal, rfl⟩
      | some child =>
        by_cases hnode : child = .null
        · subst hnode
          rw [step_passes walker hchild]
          simp only [Stage.meeting?, hchild, if_true]
          exact ⟨hjournal, rfl⟩
        · rw [Stage.meeting?_of_child hnode hchild]
          have hputs := hdiscreet.one ⟨child, frame.cursor, frame.parent⟩ lineage
          rcases hone : walker.one ⟨child, frame.cursor, frame.parent⟩ lineage world with
            ⟨directive, later⟩ | ⟨fault, later⟩
          · have hlater := hjournal.trans (hputs.of_ok hone)
            by_cases hexit : directive.action = .action .exit
            · rw [step_child_leaves walker hnode hchild hone hexit]
              cases hhead : later.store.unwritable? (later.store.head child) with
              | some fault =>
                rw [leave_fails hhead]
                exact hlater
              | none =>
                rw [leave_tells hhead]
                -- The root came before, so the line is not the one of an exit there.
                obtain ⟨other, rest, rfl⟩ := List.exists_cons_of_ne_nil hroot
                exact ⟨later, hlater, rfl⟩
            · rw [step_child_enters walker hnode hchild hone hexit]
              exact Stage.Counts.enter ⟨hlater, rfl⟩ child directive
          · rw [step_child_fails walker hnode hchild hone]
            exact hjournal.trans (hputs.of_error hone)

/-- So is what is done to the root, after the opening line. -/
theorem Discreet.start (hdiscreet : walker.Discreet) {tree : Value} {world : World σ}
    (hlabel : world.store.CanLabel tree) :
    Accounts (world.told (openingLine world.store walker.reverse tree)).journal
      [{ node := tree }] (walker.start tree world) := by
  have hannounce : walker.announce tree world =
      .ok () (world.told (openingLine world.store walker.reverse tree)) := by
    have htext := Store.labelText_of_canLabel hlabel
    simp only [announce, Act.store, Act.ofExcept, bind, EStateM.bind, htext]
    rfl
  have hputs := hdiscreet.one { node := tree } []
  rcases hone : walker.one { node := tree } []
      (world.told (openingLine world.store walker.reverse tree)) with
    ⟨directive, later⟩ | ⟨fault, later⟩
  · have hlater := hputs.of_ok hone
    by_cases hexit : directive.action = .action .exit
    · rw [start_exits walker hannounce hone hexit]
      exact ⟨later, hlater, rfl⟩
    · rw [start_enters walker hannounce hone hexit]
      exact Stage.Counts.enter ⟨hlater, rfl⟩ tree directive
  · rw [start_fails walker hannounce hone]
    exact hputs.of_error hone

end Turns

section Runs

variable {walker : Walker σ} {tree : Value} {world : World σ}

theorem reached_ne_nil (turns : Nat) : walker.reached tree world turns ≠ [] := by
  cases turns with
  | zero => exact List.cons_ne_nil _ _
  | succ turns => exact List.append_ne_nil_of_right_ne_nil _ (reached_ne_nil turns)

/-- The invariant of the loop: by every turn a walk has put to the check the
    places that it has reached, and counted them. -/
theorem Discreet.counts (hdiscreet : walker.Discreet) (hlabel : world.store.CanLabel tree)
    {turns : Nat} {stage : Stage σ}
    (hstage : walker.stageAt tree world turns = some stage) :
    stage.Counts (world.told (openingLine world.store walker.reverse tree)).journal
      (walker.reached tree world turns) := by
  induction turns generalizing stage with
  | zero =>
    have hstart := hdiscreet.start hlabel
    simp only [stageAt] at hstage
    split at hstage
    · next descent later hresult =>
      rw [hresult] at hstart
      cases hstage
      exact hstart
    · cases hstage
  | succ turns ih =>
    obtain ⟨middle, hmiddle, hstep⟩ := stageAt_succ hstage
    have hturn := hdiscreet.step (ih hmiddle) (reached_ne_nil turns)
    rw [hstep] at hturn
    simp only [reached, hmiddle, Option.bind_some]
    exact hturn

/-- A walk accounts for the places that it has reached when it is over. -/
theorem Discreet.walk (hdiscreet : walker.Discreet) (hlabel : world.store.CanLabel tree)
    {fuel : Nat} {outcome : Outcome σ}
    (hwalk : walker.walk fuel tree world = some outcome) :
    ∃ turns, walker.stageAt tree world turns = none ∧
      Accounts (world.told (openingLine world.store walker.reverse tree)).journal
        (walker.reached tree world turns) outcome.turn := by
  rcases walk_cases hwalk with hstart | ⟨turns, stage, hstage, hlast⟩
  · refine ⟨0, ?_, hstart ▸ hdiscreet.start hlabel⟩
    simp only [stageAt, hstart]
    cases outcome <;> rfl
  · refine ⟨turns + 1, stageAt_succ_eq_none hstage hlast, ?_⟩
    have hturn := hdiscreet.step (hdiscreet.counts hlabel hstage) (reached_ne_nil turns)
    rw [hlast] at hturn
    simpa only [reached, hstage, Option.bind_some] using hturn

end Runs

end Walker

theorem Request.walker_discreet (request : Request) (host : Host σ) (manner : Manner)
    (annotate : Bool) (check : Check) : (request.walker host manner annotate check).Discreet where
  check place := check.test_puts host place
  visit place lineage := callVisitor_puts host manner request.visitor place lineage

/-- For every tree, test, visitor and direction, a visit that ends without a
    failure says once that it starts and once, last of all, that it is over.
    Before the former there are only messages on the test. In between the test
    is put to the root and, turn after turn, to the child at the cursor unless
    it is null, as many times as the latter tells. A visit that fails never
    says that it is over. -/
theorem visit_opens_and_closes (host : Host σ) (manner : Manner) (arguments : Arguments)
    (annotate : Bool) (fuel : Nat) (tree : Value) (world : World σ) :
    (∀ ending final,
      visit host manner arguments annotate fuel tree world = some (.ok ending final) →
      ∃ request check converted notes during added turns,
        arguments.resolve world.store = .ok request ∧
        Check.convert request.test world = .ok check converted ∧
        converted.journal = notes ++ world.journal ∧ callsIn notes = [] ∧
        final.journal = added ++ world.journal ∧ bookendsIn added = [.closing, .opening] ∧
        added = .said .debug (ending.closingLine final.store (offeredOf during)) ::
          (during ++ .said .debug (openingLine converted.store request.reverse tree) :: notes) ∧
        (request.walker host manner annotate check).stageAt tree converted turns = none ∧
        offeredOf during =
          (request.walker host manner annotate check).reached tree converted turns) ∧
    ∀ fault final,
      visit host manner arguments annotate fuel tree world = some (.error fault final) →
      ∃ added, final.journal = added ++ world.journal ∧ .closing ∉ bookendsIn added := by
  rcases hresolve : arguments.resolve world.store with refusal | request
  · simp only [visit, hresolve]
    refine ⟨fun _ _ hvisit => (by cases hvisit), ?_⟩
    rintro _ _ ⟨⟩
    exact ⟨[], rfl, by simp [bookendsIn]⟩
  rcases hconvert : Check.convert request.test world with ⟨check, converted⟩ | ⟨fault, converted⟩
  · simp only [visit, hresolve, hconvert]
    obtain ⟨notes, hjournal, hnotes, -⟩ := (Check.convert_puts request.test).of_ok hconvert
    have hcalls : callsIn notes = [] := by
      have htold := (Check.convertAt_toldMore _ request.test world check converted hconvert).calls
      rw [hjournal] at htold
      simpa [callsIn] using htold
    have hdiscreet := request.walker_discreet host manner annotate check
    let opening : Entry := .said .debug (openingLine converted.store request.reverse tree)
    have hopening : ∀ during, bookendsIn during = [] →
        bookendsIn (during ++ opening :: notes) = [.opening] := by
      intro during hquiet
      rw [bookendsIn_append, bookendsIn_cons (bookend?_openingLine _ _ _), hquiet, hnotes]
      rfl
    have hwhole : ∀ during, during ++ opening :: converted.journal =
        (during ++ opening :: notes) ++ world.journal := by
      intro during
      rw [hjournal, List.append_assoc, List.cons_append]
    -- A walk that cannot say where it starts fails with nothing said but the notes.
    cases hlabel : converted.store.unwritable? (converted.store.head tree) with
    | some fault =>
      rw [Walker.walk_announce_fails _ (Walker.announce_fails _ hlabel)]
      refine ⟨fun _ _ hwalk => (by cases hwalk), ?_⟩
      rintro _ _ ⟨⟩
      exact ⟨notes, hjournal, by simp [hnotes]⟩
    | none =>
      constructor
      · intro ending final hwalk
        obtain ⟨turns, hover, last, ⟨during, hduring, hquiet, hoffers⟩, rfl⟩ := hdiscreet.walk hlabel hwalk
        refine ⟨request, check, converted, notes, during, _, turns, rfl, hconvert, hjournal, hcalls,
          ?_, ?_, rfl, hover, hoffers⟩
        · rw [hoffers, List.cons_append, ← hwhole]
          exact congrArg _ hduring
        · rw [bookendsIn_cons (bookend?_closingLine _ _ _), hopening during hquiet]
      · intro fault final hwalk
        obtain ⟨turns, -, during, hduring, hquiet, -⟩ := hdiscreet.walk hlabel hwalk
        refine ⟨during ++ opening :: notes, hduring.trans (hwhole during), ?_⟩
        rw [hopening during hquiet]
        decide
  · simp only [visit, hresolve, hconvert]
    obtain ⟨notes, hjournal, hnotes, -⟩ := (Check.convert_puts request.test).of_error hconvert
    refine ⟨fun _ _ hvisit => (by cases hvisit), ?_⟩
    rintro _ _ ⟨⟩
    exact ⟨notes, hjournal, by simp [hnotes]⟩

/-- A root with a gap and a leaf. -/
def nook : Store :=
  ⟨#[.mapping [("children", .cell ⟨1⟩)], .list [.null, .cell ⟨2⟩], .mapping []]⟩

/-- A visitor that sends the walk back to the first child when it is called for
    the second time, ends it on the third call and fails on any other after. -/
def recallingHost : Host Nat
  | _, _, (store, calls) =>
    match calls with
    | 0 => .ok .null (store, calls + 1)
    | 1 => .ok (.int 0) (store, calls + 1)
    | 2 => .ok (.action .exit) (store, calls + 1)
    | _ => .error (.of (.tooDeep .converting)) (store, calls + 1)

/-- The walk that comes back to the leaf counts it twice, and the gap not at
    all. The one that fails at the root has an opening only. -/
theorem nook_opens_and_closes :
    (∃ final offers,
      visit recallingHost .lineage ⟨.function 0, .null, .null⟩ false 5 (.cell ⟨0⟩) ⟨nook, [], 0⟩ =
        some (.ok .exited final) ∧
      bookendsIn final.journal = [.closing, .opening] ∧
      final.journal.head? = some (.said .debug (Ending.exited.closingLine final.store offers)) ∧
      offers.length = 3) ∧
    ∃ fault final,
      visit recallingHost .place ⟨.function 0, .null, .null⟩ false 5 (.cell ⟨0⟩) ⟨nook, [], 3⟩ =
        some (.error fault final) ∧
      .closing ∉ bookendsIn final.journal := by
  constructor
  · obtain ⟨final, hvisit, hlength⟩ : ∃ final,
        visit recallingHost .lineage ⟨.function 0, .null, .null⟩ false 5 (.cell ⟨0⟩)
          ⟨nook, [], 0⟩ = some (.ok .exited final) ∧ (offeredOf final.journal).length = 3 :=
      ⟨_, rfl, rfl⟩
    obtain ⟨_, _, _, notes, during, added, _, -, -, -, hcalls, hjournal, hbookends, hadded, -, -⟩ :=
      (visit_opens_and_closes recallingHost .lineage ⟨.function 0, .null, .null⟩ false 5
        (.cell ⟨0⟩) ⟨nook, [], 0⟩).1 .exited final hvisit
    have hfinal : final.journal = added := by simpa using hjournal
    have hnotes : offeredOf notes = [] := by rw [← offeredOf_callsIn, hcalls]; rfl
    rw [hfinal, hadded] at hlength
    refine ⟨final, offeredOf during, hvisit, hfinal ▸ hbookends, ?_, ?_⟩
    · rw [hfinal, hadded]
      rfl
    · simpa [hnotes] using hlength
  · obtain ⟨fault, final, hvisit⟩ : ∃ fault final,
        visit recallingHost .place ⟨.function 0, .null, .null⟩ false 5 (.cell ⟨0⟩)
          ⟨nook, [], 3⟩ = some (.error fault final) := ⟨_, _, rfl⟩
    obtain ⟨added, hjournal, hadded⟩ :=
      (visit_opens_and_closes recallingHost .place ⟨.function 0, .null, .null⟩ false 5 (.cell ⟨0⟩)
        ⟨nook, [], 3⟩).2 fault final hvisit
    have hfinal : final.journal = added := by simpa using hjournal
    exact ⟨fault, final, hvisit, hfinal ▸ hadded⟩

end Lineage
