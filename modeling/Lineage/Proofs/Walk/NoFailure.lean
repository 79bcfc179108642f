import Lineage.Proofs.Walk.Consultation
import Lineage.Proofs.Walk.Preorder

namespace Lineage

namespace Store

/-- The nodes that are found from a node by going down through lists of
    children, with the node itself. -/
inductive Reaches (store : Store) (top : Value) : Value → Prop where
  | here : Reaches store top top
  | down {parent child : Value} {items : List Value} (hparent : Reaches store top parent)
      (hlist : store.cell? (store.children parent) = some (.list items)) (hchild : child ∈ items) :
      Reaches store top child

/-- Whatever is reached from a node has no children, null for children or a
    list of them. -/
def Orderly (store : Store) (top : Value) : Prop :=
  ∀ node, store.Reaches top node →
    store.children node = .null ∨ ∃ items, store.cell? (store.children node) = some (.list items)

section Reading

variable {store : Store} {children cursor : Value} {items : List Value} {place : Int}

theorem childAt_null : store.childAt .null cursor = .ok none := by
  simp [childAt, pure, Except.pure]

theorem position?_cases (hplace : cursor.position? = some place) :
    cursor = .int place ∨ ∃ b, cursor = .bool b ∧ place = if b then 1 else 0 := by
  unfold Value.position? at hplace
  split at hplace
  · cases hplace
    exact Or.inl rfl
  · cases hplace
    exact Or.inr ⟨_, rfl, rfl⟩
  · cases hplace

/-- In a list a truth value points to the place that it counts as. -/
theorem childAt_of_position (hlist : store.cell? children = some (.list items))
    (hplace : cursor.position? = some place) :
    store.childAt children cursor = store.childAt children (.int place) := by
  rcases position?_cases hplace with rfl | ⟨b, rfl, rfl⟩
  · rfl
  · simp [childAt, isFromStart, memberAt, Value.isBelow, Value.position?, members?_list hlist]

/-- A cursor that is a whole number finds an item of a list, or nothing. -/
theorem childAt_cases (hlist : store.cell? children = some (.list items))
    (hplace : cursor.position?.isSome) :
    store.childAt children cursor = .ok none ∨
      ∃ n : Nat, cursor.position? = some (n : Int) ∧
        ∃ hn : n < items.length, store.childAt children cursor = .ok (some items[n]) := by
  obtain ⟨place, hplace⟩ := Option.isSome_iff_exists.mp hplace
  rw [childAt_of_position hlist hplace]
  by_cases hinside : 0 ≤ place ∧ place < items.length
  · obtain ⟨n, rfl⟩ := Int.eq_ofNat_of_zero_le hinside.1
    have hn : n < items.length := by omega
    exact Or.inr ⟨n, hplace, hn, childAt_list hlist hn⟩
  · exact Or.inl (childAt_list_outside hlist hinside)

end Reading

end Store

/-- An index that asks for nothing, or for a whole number. -/
def Value.IsResume (index : Value) : Prop :=
  index = .null ∨ index.position?.isSome

/-- Every answer but a directive of its own asks for nothing or for a whole
    number. -/
theorem Directive.isResume_read {store : Store} {answer : Value}
    (hown : ∀ directive, store.cell? answer = some (.directive directive) →
      directive.index.IsResume) :
    ((Directive.read store answer).getD {}).index.IsResume := by
  cases answer with
  | scalar s => cases s <;> simp [Directive.read, Value.IsResume, Value.position?]
  | function f => exact Or.inl rfl
  | cell ref =>
    rcases hcell : store.get? ref with _ | cell
    · simp [Directive.read, hcell, Value.IsResume]
    · have hparts : ∀ parts, (Directive.ofParts parts).index.IsResume := by
        intro parts
        rcases parts with _ | ⟨first, _ | ⟨second, rest⟩⟩
        · exact Or.inl rfl
        · exact Or.inl rfl
        · cases second with
          | scalar s => cases s <;> simp [Directive.ofParts, Directive.indexOf, Value.IsResume,
              Value.position?]
          | cell ref => exact Or.inl rfl
          | function f => exact Or.inl rfl
      cases cell with
      | directive directive =>
        simpa [Directive.read, hcell] using hown directive hcell
      | list parts => simpa [Directive.read, hcell] using hparts parts
      | tuple parts => simpa [Directive.read, hcell] using hparts parts
      | _ => simp [Directive.read, hcell, Value.IsResume]

namespace Walker

variable {σ : Type}

/-- The check and, if it is passed, the visitor do not fail at a node, and they
    leave some nodes orderly. The visitor may answer with anything but a
    directive whose index is neither null nor a whole number. -/
inductive Fair (walker : Walker σ) (nodes : List Value) (place : Place) (lineage : List Value)
    (world : World σ) : Prop where
  | rejected {checked : World σ}
      (hcheck : walker.check place { world with journal := .offered place :: world.journal } =
        .ok false checked)
      (horderly : ∀ node ∈ nodes, checked.store.Orderly node)
  | visited {checked later : World σ} {answer : Value}
      (hcheck : walker.check place { world with journal := .offered place :: world.journal } =
        .ok true checked)
      (hvisit : walker.visit place lineage
        { checked with journal := .visited place lineage :: checked.journal } = .ok answer later)
      (horderly : ∀ node ∈ nodes, later.store.Orderly node)
      (hindex : ∀ directive, later.store.cell? answer = some (.directive directive) →
        directive.index.IsResume)

/-- What the visitor answers at a node can be told of: the answer itself if it
    is not understood, and the label of a child at which the walk is to end. -/
def CanReport (walker : Walker σ) (place : Place) (lineage : List Value) (world : World σ) : Prop :=
  ∀ checked later answer,
    walker.check place { world with journal := .offered place :: world.journal } =
      .ok true checked →
    walker.visit place lineage
      { checked with journal := .visited place lineage :: checked.journal } = .ok answer later →
    later.store.Settles answer ∧
      (((Directive.read later.store answer).getD {}).action = .action .exit →
        place.parent ≠ .null → later.store.CanLabel place.node)

/-- A node that is dealt with fairly is dealt with well, or its answer cannot be
    told of. -/
theorem Fair.one {walker : Walker σ} {nodes : List Value} {place : Place} {lineage : List Value}
    {world : World σ} (hfair : walker.Fair nodes place lineage world) :
    (∃ directive later, walker.one place lineage world = .ok directive later ∧
      (∀ node ∈ nodes, later.store.Orderly node) ∧ directive.index.IsResume ∧
      (walker.CanReport place lineage world → directive.action = .action .exit →
        place.parent ≠ .null → later.store.CanLabel place.node)) ∨
    ¬walker.CanReport place lineage world ∧
      ∃ fault later, walker.one place lineage world = .error fault later := by
  cases hfair with
  | @rejected checked hcheck horderly =>
    refine .inl ⟨{}, checked, walker.one_of_consult (walker.consult_rejected hcheck), horderly,
      Or.inl rfl, ?_⟩
    rintro _ ⟨⟩
  | @visited checked later answer hcheck hvisit horderly hindex =>
    by_cases hsettles : later.store.Settles answer
    · obtain ⟨journal, _, hsettled⟩ := ofAnswer_settles hsettles
      refine .inl ⟨_, _, walker.one_of_consult ((walker.consult_called hcheck hvisit).trans hsettled),
        horderly, Directive.isResume_read hindex, ?_⟩
      exact fun hreport => (hreport checked later answer hcheck hvisit).2
    · refine .inr ⟨fun hreport => hsettles (hreport checked later answer hcheck hvisit).1, ?_⟩
      obtain ⟨hread, hwrite⟩ := Classical.not_imp.mp hsettles
      obtain ⟨fault, hfault⟩ := Option.ne_none_iff_exists'.mp hwrite
      have hraises : walker.Raises place lineage world fault later :=
        .answer hcheck hvisit (ofAnswer_fails hread hfault)
      exact ⟨_, _, hraises.one_fails⟩

/-- What holds of the frames of a walk between two turns: the root and their
    nodes are orderly, and their cursors are whole numbers. -/
structure Steady (tree : Value) (store : Store) (frames : List Frame) : Prop where
  root : store.Orderly tree
  parents : ∀ frame ∈ frames, store.Orderly frame.parent
  cursors : ∀ frame ∈ frames, frame.cursor.position?.isSome

section Steps

variable {walker : Walker σ} {tree : Value} {store : Store} {frame : Frame} {outer : List Frame}

theorem Steady.cons {frames : List Frame} (hsteady : Steady tree store frames)
    (hparent : store.Orderly frame.parent) (hcursor : frame.cursor.position?.isSome) :
    Steady tree store (frame :: frames) where
  root := hsteady.root
  parents := List.forall_mem_cons.mpr ⟨hparent, hsteady.parents⟩
  cursors := List.forall_mem_cons.mpr ⟨hcursor, hsteady.cursors⟩

theorem Steady.tail (hsteady : Steady tree store (frame :: outer)) : Steady tree store outer where
  root := hsteady.root
  parents := (List.forall_mem_cons.mp hsteady.parents).2
  cursors := (List.forall_mem_cons.mp hsteady.cursors).2

theorem Steady.orderly {frames : List Frame} (hsteady : Steady tree store frames) :
    ∀ node ∈ tree :: frames.map Frame.parent, store.Orderly node := by
  refine List.forall_mem_cons.mpr ⟨hsteady.root, ?_⟩
  intro node hnode
  obtain ⟨frame, hframe, rfl⟩ := List.mem_map.mp hnode
  exact hsteady.parents frame hframe

/-- Frames stay steady while the nodes are left orderly. -/
theorem Steady.later {frames : List Frame} {changed : Store} (hsteady : Steady tree store frames)
    (hroot : changed.Orderly tree)
    (hparents : ∀ node ∈ frames.map Frame.parent, changed.Orderly node) :
    Steady tree changed frames where
  root := hroot
  parents := fun _ hframe => hparents _ (List.mem_map_of_mem hframe)
  cursors := hsteady.cursors

theorem isSome_moved {cursor : Value} (hcursor : cursor.position?.isSome) (places : Int) :
    (cursor.moved places).position?.isSome := by
  obtain ⟨place, hplace⟩ := Option.isSome_iff_exists.mp hcursor
  rw [Value.moved, hplace]
  rfl

theorem isSome_cursorAfter {cursor index : Value} (hcursor : cursor.position?.isSome)
    (hindex : index.IsResume) : (walker.cursorAfter cursor index).position?.isSome := by
  unfold cursorAfter
  split
  · exact isSome_moved hcursor walker.stride
  · next hnull => exact hindex.resolve_left hnull

/-- A node is entered, if at all, without failing. -/
theorem enter_steady {descent : Descent} {node : Value} (directive : Directive) {world : World σ}
    (hsteady : Steady tree world.store descent.frames) (hnode : world.store.Orderly node) :
    ∃ next, walker.enter descent node directive world = .ok next world ∧
      Steady tree world.store next.frames := by
  by_cases hstay : world.store.children node = .null ∨ directive.action = .action .skip
  · exact ⟨descent, enter_stays walker descent node directive world hstay, hsteady⟩
  · rcases hnode node .here with hnull | ⟨items, hlist⟩
    · exact (hstay (Or.inl hnull)).elim
    · exact ⟨_, enter_descends walker descent node directive world hstay (startOf_list hlist),
        hsteady.cons hnode rfl⟩

/-- The cursor of a steady frame points to nothing or to an item of the list
    that the children are by now. -/
theorem Steady.childAt_cases (hsteady : Steady tree store (frame :: outer)) :
    store.childAt (store.children frame.parent) frame.cursor = .ok none ∨
      ∃ items, store.cell? (store.children frame.parent) = some (.list items) ∧
        ∃ n : Nat, frame.cursor.position? = some (n : Int) ∧ ∃ hn : n < items.length,
          store.childAt (store.children frame.parent) frame.cursor = .ok (some items[n]) := by
  rcases hsteady.parents frame (by simp) frame.parent .here with hnull | ⟨items, hlist⟩
  · rw [hnull]
    exact Or.inl Store.childAt_null
  · have hcursor := hsteady.cursors frame (by simp)
    exact (Store.childAt_cases hlist hcursor).imp id fun hinside => ⟨items, hlist, hinside⟩

/-- A child that is dealt with leaves the walk steady: the visitor may have changed
    the store, but the nodes at hand are orderly. -/
theorem step_child_steady {lineage : List Value} {walked : Nat} {world later : World σ}
    {child : Value} {directive : Directive} (hnode : child ≠ .null)
    (hchild : world.store.childAt (world.store.children frame.parent) frame.cursor =
      .ok (some child))
    (hone : walker.one ⟨child, frame.cursor, frame.parent⟩ lineage world = .ok directive later)
    (hexit : directive.action ≠ .action .exit) (hsteady : Steady tree world.store (frame :: outer))
    (horderly : ∀ node ∈ tree :: child :: (frame :: outer).map Frame.parent,
      later.store.Orderly node)
    (hindex : directive.index.IsResume) :
    ∃ next, walker.step ⟨frame :: outer, lineage, walked⟩ world = .ok (.more next) later ∧
      Steady tree later.store next.frames := by
  have hlater : Steady tree later.store (frame :: outer) :=
    hsteady.later (horderly tree (by simp)) fun node hmem =>
      horderly node (List.mem_cons_of_mem _ (List.mem_cons_of_mem _ hmem))
  have hmoved := @isSome_cursorAfter _ walker _ _ (hsteady.cursors frame (by simp)) hindex
  have hframes : Steady tree later.store
      (⟨frame.parent, walker.cursorAfter frame.cursor directive.index⟩ :: outer) :=
    hlater.tail.cons (hlater.parents frame (by simp)) hmoved
  obtain ⟨next, henter, hnext⟩ := @enter_steady _ walker _
    ⟨⟨frame.parent, walker.cursorAfter frame.cursor directive.index⟩ :: outer, lineage, walked + 1⟩
    child directive later hframes (horderly child (by simp))
  exact ⟨next, step_child_goes_on walker hnode hchild hone hexit henter, hnext⟩

/-- A turn at which the node that is met, if any, is dealt with fairly leaves the
    walk steady if it goes on. It fails only at a node that cannot be told of. -/
theorem step_steady {stage : Stage σ}
    (hparents : stage.descent.frames.map Frame.parent = stage.descent.lineage)
    (hsteady : Steady tree stage.world.store stage.descent.frames)
    (hfair : ∀ place, stage.meeting? = some place →
      walker.Fair (tree :: place.node :: stage.descent.lineage) place stage.descent.lineage
        stage.world) :
    (∃ step later, walker.step stage.descent stage.world = .ok step later ∧
      ∀ next, step = .more next → Steady tree later.store next.frames) ∨
    (∃ place, stage.meeting? = some place ∧
      ¬walker.CanReport place stage.descent.lineage stage.world) ∧
      ∃ fault later, walker.step stage.descent stage.world = .error fault later := by
  obtain ⟨⟨frames, lineage, walked⟩, world⟩ := stage
  simp only at hparents
  subst hparents
  cases frames with
  | nil =>
    refine .inl ⟨_, _, step_finished walker, ?_⟩
    rintro next ⟨⟩
  | cons frame outer =>
    rcases hsteady.childAt_cases with hnone | ⟨items, hlist, n, _, hn, hchild⟩
    · refine .inl ⟨_, _, step_leaves walker hnone, ?_⟩
      rintro next ⟨⟩
      exact hsteady.tail
    · have hparent : world.store.Orderly frame.parent := hsteady.parents frame (by simp)
      have hcursor := hsteady.cursors frame (by simp)
      by_cases hnode : items[n] = .null
      · rw [hnode] at hchild
        refine .inl ⟨_, _, step_passes walker hchild, ?_⟩
        rintro next ⟨⟩
        exact hsteady.tail.cons hparent (isSome_moved hcursor walker.stride)
      have hmeeting : Stage.meeting?
          ⟨⟨frame :: outer, (frame :: outer).map Frame.parent, walked⟩, world⟩ = some _ :=
        Stage.meeting?_of_child hnode hchild
      rcases (hfair _ hmeeting).one with
        ⟨directive, later, hone, horderly, hindex, hlabel⟩ | ⟨hsilent, fault, later, hone⟩
      · by_cases hexit : directive.action = .action .exit
        · have hnull : frame.parent ≠ .null := fun hnull => by
            rw [hnull] at hlist
            cases hlist
          have hleaves : EndsAt items[n] later
              (walker.step ⟨frame :: outer, (frame :: outer).map Frame.parent, walked⟩ world) :=
            step_child_ends walker hnode hchild hone hexit
          generalize walker.step _ _ = result at hleaves ⊢
          cases hleaves with
          | told _ message =>
            refine .inl ⟨_, _, rfl, ?_⟩
            rintro next ⟨⟩
          | @untold fault hhead =>
            refine .inr ⟨⟨_, hmeeting, fun hreport => ?_⟩, fault, later, rfl⟩
            rw [hlabel hreport hexit hnull] at hhead
            cases hhead
        · obtain ⟨next, hstep, hnext⟩ := @step_child_steady _ walker tree frame outer
            ((frame :: outer).map Frame.parent) walked _ _ _ directive hnode hchild hone hexit
            hsteady horderly hindex
          refine .inl ⟨_, _, hstep, ?_⟩
          rintro _ ⟨⟩
          exact hnext
      · exact .inr ⟨⟨_, hmeeting, hsilent⟩, fault, later,
          step_child_fails walker hnode hchild hone⟩

/-- The root is dealt with before the first turn, and just as well. -/
theorem start_steady {world opened : World σ}
    (hannounce : walker.announce tree world = .ok () opened)
    (hfair : walker.Fair [tree, tree] { node := tree } [] opened) :
    (∃ step later, walker.start tree world = .ok step later ∧
      ∀ next, step = .more next → Steady tree later.store next.frames) ∨
    ¬walker.CanReport { node := tree } [] opened ∧
      ∃ fault later, walker.start tree world = .error fault later := by
  rcases hfair.one with ⟨directive, later, hone, horderly, _, _⟩ | ⟨hsilent, fault, later, hone⟩
  · by_cases hexit : directive.action = .action .exit
    · refine .inl ⟨_, _, start_exits walker hannounce hone hexit, ?_⟩
      rintro next ⟨⟩
    · have hroot : later.store.Orderly tree := horderly tree (by simp)
      have hempty : Steady tree later.store [] := ⟨hroot, by simp, by simp⟩
      obtain ⟨next, henter, hnext⟩ :=
        @enter_steady _ walker _ ⟨[], [], 1⟩ tree directive later hempty hroot
      refine .inl ⟨_, _, start_goes_on walker hannounce hone hexit henter, ?_⟩
      rintro _ ⟨⟩
      exact hnext
  · exact .inr ⟨hsilent, fault, later, start_fails walker hannounce hone⟩

end Steps

section Runs

variable {walker : Walker σ} {tree : Value} {world : World σ}

/-- At every node that a walk deals with, the check and the visitor are fair:
    if the root and the ancestors are orderly when it is their turn, they do not
    fail and leave them so, and the node as well. -/
def IsFair (walker : Walker σ) (tree : Value) (world : World σ) : Prop :=
  ∀ place lineage before, walker.Consults tree world place lineage before →
    (∀ node ∈ tree :: lineage, before.store.Orderly node) →
    walker.Fair (tree :: place.node :: lineage) place lineage before

/-- All that a walk has to tell can be written: the label of the root, and what
    is to be told of the answers at the nodes that it deals with. -/
structure IsReportable (walker : Walker σ) (tree : Value) (world : World σ) : Prop where
  root : world.store.CanLabel tree
  answers : ∀ place lineage before, walker.Consults tree world place lineage before →
    walker.CanReport place lineage before

theorem IsFair.start_steady (hfair : walker.IsFair tree world)
    (horderly : world.store.Orderly tree) :
    (∃ step later, walker.start tree world = .ok step later ∧
      ∀ next, step = .more next → Steady tree later.store next.frames) ∨
    ¬walker.IsReportable tree world ∧
      ∃ fault later, walker.start tree world = .error fault later := by
  rcases walker.announce_cases tree world with ⟨fault, hhead, hannounce⟩ | ⟨message, _, hannounce⟩
  · refine .inr ⟨fun hreportable => ?_, fault, world, walker.start_announce_fails hannounce⟩
    rw [hreportable.root] at hhead
    cases hhead
  · have hroot : ∀ node ∈ [tree], (world.told message).store.Orderly node :=
      List.forall_mem_singleton.mpr horderly
    refine (Walker.start_steady hannounce (hfair _ _ _ (.root hannounce) hroot)).imp_right ?_
    exact And.imp_left fun hsilent hreportable =>
      hsilent (hreportable.answers _ _ _ (.root hannounce))

theorem IsFair.step_steady (hfair : walker.IsFair tree world) {turns : Nat} {stage : Stage σ}
    (hstage : walker.stageAt tree world turns = some stage)
    (hsteady : Steady tree stage.world.store stage.descent.frames) :
    (∃ step later, walker.step stage.descent stage.world = .ok step later ∧
      ∀ next, step = .more next → Steady tree later.store next.frames) ∨
    ¬walker.IsReportable tree world ∧
      ∃ fault later, walker.step stage.descent stage.world = .error fault later := by
  have hparents := (Ancestry.of_stageAt hstage).parents
  have horderly := hsteady.orderly
  rw [hparents] at horderly
  refine (Walker.step_steady hparents hsteady fun place hmeeting =>
    hfair place _ _ (.turn hstage hmeeting) horderly).imp_right (And.imp_left ?_)
  rintro ⟨place, hmeeting, hsilent⟩ hreportable
  exact hsilent (hreportable.answers place _ _ (.turn hstage hmeeting))

/-- A fair walk is steady at every stage. -/
theorem IsFair.steady (hfair : walker.IsFair tree world) (horderly : world.store.Orderly tree)
    {turns : Nat} {stage : Stage σ} (hstage : walker.stageAt tree world turns = some stage) :
    Steady tree stage.world.store stage.descent.frames := by
  induction turns generalizing stage with
  | zero =>
    rcases hfair.start_steady horderly with ⟨step, later, hstart, hsteady⟩ | ⟨_, _, _, hstart⟩
    · simp only [stageAt, hstart] at hstage
      cases step with
      | done ending => cases hstage
      | more descent =>
        cases hstage
        exact hsteady descent rfl
    · simp only [stageAt, hstart] at hstage
      cases hstage
  | succ turns ih =>
    obtain ⟨before, hbefore, hstep⟩ := stageAt_succ hstage
    rcases hfair.step_steady hbefore (ih hbefore) with ⟨step, later, hgoes, hsteady⟩ | ⟨_, _, _, hfails⟩
    · rw [hstep] at hgoes
      cases hgoes
      exact hsteady _ rfl
    · rw [hstep] at hfails
      cases hfails

/-- A fair walk that can tell all that it has to never fails. -/
theorem IsFair.never_fails (hfair : walker.IsFair tree world)
    (horderly : world.store.Orderly tree) (hreportable : walker.IsReportable tree world)
    (fuel : Nat) (fault : Fault) (final : World σ) :
    walker.walk fuel tree world ≠ some (.error fault final) := by
  intro hwalk
  rcases walk_fails_cases hwalk with hstart | ⟨turns, stage, hstage, hstep⟩
  · rcases hfair.start_steady horderly with ⟨step, later, hgoes, _⟩ | ⟨hsilent, _⟩
    · rw [hstart] at hgoes
      cases hgoes
    · exact hsilent hreportable
  · rcases hfair.step_steady hstage (hfair.steady horderly hstage) with
      ⟨step, later, hgoes, _⟩ | ⟨hsilent, _⟩
    · rw [hstep] at hgoes
      cases hgoes
    · exact hsilent hreportable

/-- A walk that never fails can tell all that it has to: at an answer that it
    cannot write, and at an exit from a child that it cannot label, it fails. -/
theorem isReportable_of_never_fails
    (hnever : ∀ fuel fault final, walker.walk fuel tree world ≠ some (.error fault final)) :
    walker.IsReportable tree world where
  root := by
    rcases walker.announce_cases tree world with ⟨fault, _, hannounce⟩ | ⟨_, hlabel, _⟩
    · exact (hnever 0 fault world (walker.walk_announce_fails hannounce 0)).elim
    · exact hlabel
  answers := by
    intro place lineage before hconsults checked later answer hcheck hvisit
    have hsettles : later.store.Settles answer := by
      intro hread
      rcases hwrite : later.store.unwritable? answer with _ | fault
      · rfl
      · have hraises : walker.Raises place lineage before fault later :=
          .answer hcheck hvisit (ofAnswer_fails hread hwrite)
        obtain ⟨fuel, hwalk⟩ := hconsults.walk_fails hraises.one_fails
        exact (hnever _ _ _ (hwalk 0)).elim
    refine ⟨hsettles, ?_⟩
    intro hexit hparent
    obtain ⟨journal, _, hsettled⟩ := ofAnswer_settles hsettles
    have hone := walker.one_of_consult ((walker.consult_called hcheck hvisit).trans hsettled)
    rcases hhead : later.store.unwritable? (later.store.head place.node) with _ | fault
    · exact hhead
    · cases hconsults with
      | root _ => exact (hparent rfl).elim
      | @turn turns stage _ hstage hmeeting =>
        obtain ⟨⟨frames, lineage, walked⟩, middle⟩ := stage
        obtain ⟨outer, hframes, hnode, hchild⟩ := Stage.meeting?_eq_some hmeeting
        simp only at hframes
        subst hframes
        have hstep : walker.step ⟨⟨place.parent, place.index⟩ :: outer, lineage, walked⟩ middle =
            .error fault { later with journal } := by
          rw [step_child_leaves walker hnode hchild hone hexit]
          exact leave_fails hhead
        exact (hnever _ _ _ (walk_fails_of_step hstage hstep 0)).elim

end Runs

/-- A walk of an orderly tree, in either direction and of any length, of which
    the check and the visitor do not fail and keep what it walks orderly,
    whatever else they do to it and whatever the visitor answers, never fails,
    if and only if all that it has to tell of labels and answers can be written.
    At every turn that has a frame left there is an ancestor to leave it with,
    and a child is read at a place inside of the list as it is by then. -/
theorem fair_walk_fails_only_untold (walker : Walker σ) (tree : Value) (world : World σ)
    (horderly : world.store.Orderly tree) (hfair : walker.IsFair tree world) :
    ((∀ fuel fault final, walker.walk fuel tree world ≠ some (.error fault final)) ↔
      walker.IsReportable tree world) ∧
    ∀ turns stage, walker.stageAt tree world turns = some stage →
      (walker.IsReportable tree world →
        ∃ step later, walker.step stage.descent stage.world = .ok step later) ∧
      ∀ frame outer, stage.descent.frames = frame :: outer →
        stage.descent.lineage ≠ [] ∧
        ∀ child, stage.world.store.childAt (stage.world.store.children frame.parent)
            frame.cursor = .ok (some child) →
          ∃ items, stage.world.store.cell? (stage.world.store.children frame.parent) =
              some (.list items) ∧
            ∃ n : Nat, frame.cursor.position? = some (n : Int) ∧ items[n]? = some child := by
  refine ⟨⟨isReportable_of_never_fails, hfair.never_fails horderly⟩, ?_⟩
  intro turns stage hstage
  have hsteady := hfair.steady horderly hstage
  refine ⟨?_, ?_⟩
  · intro hreportable
    rcases hfair.step_steady hstage hsteady with ⟨step, later, hgoes, _⟩ | ⟨hsilent, _⟩
    · exact ⟨step, later, hgoes⟩
    · exact (hsilent hreportable).elim
  · intro frame outer hframes
    rw [hframes] at hsteady
    refine ⟨?_, ?_⟩
    · rw [← (Ancestry.of_stageAt hstage).parents, hframes]
      exact List.cons_ne_nil _ _
    · intro child hchild
      rcases hsteady.childAt_cases with hnone | ⟨items, hlist, n, hposition, hn, hread⟩
      · rw [hchild] at hnone
        cases hnone
      · rw [hchild] at hread
        cases hread
        exact ⟨items, hlist, n, hposition, List.getElem?_eq_getElem hn⟩

/-- A root with some leaves, next to a directive whose index is a truth value. -/
def stump (leaves : List Value) : Store :=
  ⟨#[.mapping [("children", .cell ⟨1⟩)], .list leaves, .mapping [], .mapping [],
    .directive ⟨.action .proceed, .bool true⟩]⟩

/-- A walk whose visitor cuts the leaves down to the first and answers with the
    directive. -/
def feller (reverse : Bool) : Walker Unit where
  check _ := pure true
  visit _ _ := fun world => .ok (.cell ⟨4⟩) { world with store := stump [.cell ⟨2⟩] }
  reverse := reverse
  annotate := false

theorem stump_orderly (leaves : List Value) (node : Value) : (stump leaves).Orderly node := by
  intro other _
  match other with
  | .scalar s => cases s <;> exact Or.inl rfl
  | .function f => exact Or.inl rfl
  | .cell ⟨0⟩ => exact Or.inr ⟨leaves, rfl⟩
  | .cell ⟨1⟩ | .cell ⟨2⟩ | .cell ⟨3⟩ | .cell ⟨4⟩ => exact Or.inl rfl
  | .cell ⟨n + 5⟩ => exact Or.inl rfl

theorem feller_isFair (reverse : Bool) : (feller reverse).IsFair (.cell ⟨0⟩)
    ⟨stump [.cell ⟨2⟩, .cell ⟨3⟩], [], ()⟩ := by
  intro place lineage before _ _
  refine .visited rfl rfl (fun node _ => stump_orderly _ node) ?_
  intro directive hdirective
  cases hdirective
  exact Or.inr rfl

theorem feller_isReportable (reverse : Bool) : (feller reverse).IsReportable (.cell ⟨0⟩)
    ⟨stump [.cell ⟨2⟩, .cell ⟨3⟩], [], ()⟩ where
  root := rfl
  answers := by
    rintro place lineage before _ checked later answer ⟨⟩ ⟨⟩
    refine ⟨nofun, ?_⟩
    rintro ⟨⟩

/-- The walk of the leaves that are cut down under it does not fail in either
    direction; forward it comes to its end. -/
theorem feller_never_fails :
    (∀ reverse fuel fault final, (feller reverse).walk fuel (.cell ⟨0⟩)
      ⟨stump [.cell ⟨2⟩, .cell ⟨3⟩], [], ()⟩ ≠ some (.error fault final)) ∧
    ∃ final, (feller false).walk 3 (.cell ⟨0⟩) ⟨stump [.cell ⟨2⟩, .cell ⟨3⟩], [], ()⟩ =
      some (.ok .finished final) := by
  refine ⟨?_, _, rfl⟩
  intro reverse
  have hfells := fair_walk_fails_only_untold (feller reverse) (.cell ⟨0⟩)
    ⟨stump [.cell ⟨2⟩, .cell ⟨3⟩], [], ()⟩ (stump_orderly _ _) (feller_isFair reverse)
  exact hfells.1.mpr (feller_isReportable reverse)

/-- A leaf, next to a mapping that holds a number. -/
def tally (n : Nat) : Store :=
  ⟨#[.mapping [], .mapping [("x", .int n)]]⟩

/-- A walk whose visitor answers with the mapping. -/
def reckoner (n : Nat) : Walker Unit where
  check _ := pure true
  visit _ _ := fun world => .ok (.cell ⟨1⟩) { world with store := tally n }
  reverse := false
  annotate := false

theorem tally_orderly (n : Nat) (node : Value) : (tally n).Orderly node := by
  intro other _
  match other with
  | .scalar s => cases s <;> exact Or.inl rfl
  | .function f => exact Or.inl rfl
  | .cell ⟨0⟩ | .cell ⟨1⟩ => exact Or.inl rfl
  | .cell ⟨n + 2⟩ => exact Or.inl rfl

theorem reckoner_isFair (n : Nat) : (reckoner n).IsFair (.cell ⟨0⟩) ⟨tally n, [], ()⟩ := by
  intro place lineage before _ _
  refine .visited rfl rfl (fun node _ => tally_orderly n node) ?_
  rintro directive ⟨⟩

theorem unwritable?_tally {n : Nat} (hlong : 10 ^ Numeral.maxDigits ≤ n) :
    (tally n).unwritable? (.cell ⟨1⟩) = some (.of .unwritableInteger) := by
  have hlevels : ¬maxLevels ≤ 0 := by decide
  have hcell : (tally n).get? ⟨1⟩ = some (.mapping [("x", .int n)]) := rfl
  show (tally n).unwritableAt? 2 [] (.cell ⟨1⟩) = _
  simp [Store.unwritableAt?, hlevels, hcell, Store.isLong_of_le hlong]

/-- The leaf is orderly, and neither the check nor the visitor fails. But an
    answer that is not understood is written, so a number in it that has a digit
    too many fails the walk. -/
theorem reckoner_fails :
    (tally (10 ^ Numeral.maxDigits)).Orderly (.cell ⟨0⟩) ∧
    (reckoner (10 ^ Numeral.maxDigits)).IsFair (.cell ⟨0⟩)
      ⟨tally (10 ^ Numeral.maxDigits), [], ()⟩ ∧
    ∃ final, (reckoner (10 ^ Numeral.maxDigits)).walk 0 (.cell ⟨0⟩)
      ⟨tally (10 ^ Numeral.maxDigits), [], ()⟩ =
        some (.error (.of .unwritableInteger) final) := by
  refine ⟨tally_orderly _ _, reckoner_isFair _, ?_⟩
  have hfails : ∀ n, 10 ^ Numeral.maxDigits ≤ n → ∃ final,
      (reckoner n).walk 0 (.cell ⟨0⟩) ⟨tally n, [], ()⟩ =
        some (.error (.of .unwritableInteger) final) := by
    intro n hlong
    have hlabel : (⟨tally n, [], ()⟩ : World Unit).store.CanLabel (.cell ⟨0⟩) := rfl
    obtain ⟨message, hannounce⟩ := (reckoner n).announce_tells hlabel
    have hraises : (reckoner n).Raises { node := .cell ⟨0⟩ } []
        (World.told ⟨tally n, [], ()⟩ message) (.of .unwritableInteger) _ :=
      .answer rfl rfl (ofAnswer_fails rfl (unwritable?_tally hlong))
    exact ⟨_, by rw [walk, start_fails _ hannounce hraises.one_fails]; rfl⟩
  exact hfails _ (Nat.le_refl _)

end Walker

end Lineage
