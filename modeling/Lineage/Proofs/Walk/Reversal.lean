import Lineage.Proofs.Walk.Annotation
import Lineage.Proofs.Walk.AppendingTrace
import Lineage.Proofs.Walk.Preorder
import Lineage.Proofs.Walk.SideBySide

namespace Lineage

/-- An index counted from the other end of so many siblings. -/
def Value.facing (count : Nat) : Value → Value
  | .int i => .int (count - 1 - i)
  | index => index

/-- The place of a node when its siblings are in opposite order. -/
def Place.facing (count : Value → Nat) (place : Place) : Place :=
  { place with index := place.index.facing (count place.parent) }

/-- What a node is to be answered with when its siblings are in opposite order.
    The root has no siblings. -/
def Directive.facing (count : Value → Nat) (place : Place) (directive : Directive) : Directive :=
  if place.index = .null then directive
  else { directive with index := directive.index.facing (count place.parent) }

def Entry.facing (count : Value → Nat) : Entry → Entry
  | .said severity message => .said severity message
  | .offered place => .offered (place.facing count)
  | .visited place lineage => .visited (place.facing count) lineage

def Frame.facing (count : Value → Nat) (frame : Frame) : Frame :=
  { frame with cursor := frame.cursor.facing (count frame.parent) }

/-- Two walks have made the same calls up to now, with the places counted from
    opposite ends. -/
def CallsFace {σ τ : Type} (count : Value → Nat) (world : World σ) (other : World τ) : Prop :=
  callsIn other.journal = (callsIn world.journal).map (Entry.facing count)

/-- A tree stands in the stores that are kept, and in the mirrored ones with
    every list of children reversed. -/
inductive Tree.StandsReversed (kept mirrored : Store → Prop) : Tree → Prop where
  | gap : StandsReversed kept mirrored .gap
  | leaf {value : Value} (hleaf : ∀ store, kept store → store.children value = .null)
      (hbare : ∀ store, mirrored store → store.children value = .null) :
      StandsReversed kept mirrored (.node value [])
  | parent {value : Value} {children : List Tree}
      (hlist : ∀ store, kept store →
        store.cell? (store.children value) = some (.list (children.map Tree.value)))
      (hreversed : ∀ store, mirrored store →
        store.cell? (store.children value) = some (.list (children.map Tree.value).reverse))
      (hgaps : ∀ child ∈ children, child.value = .null → child = .gap)
      (hchildren : ∀ child ∈ children, StandsReversed kept mirrored child) :
      StandsReversed kept mirrored (.node value children)

namespace Directive

variable (count : Value → Nat) (place : Place)

theorem facing_empty : Directive.facing count place {} = {} := by
  unfold Directive.facing
  split <;> rfl

@[simp] theorem facing_action (directive : Directive) :
    (directive.facing count place).action = directive.action := by
  unfold Directive.facing
  split <;> rfl

variable {place}

theorem facing_index (hindex : place.index ≠ .null) (directive : Directive) :
    (directive.facing count place).index = directive.index.facing (count place.parent) := by
  rw [Directive.facing, if_neg hindex]

end Directive

section Reversal

variable {store reflected : Store} {children opposite : Value} {items : List Value}

/-- What is at a cursor in a list is at the facing cursor in the reversed list,
    and cursors outside of it face each other. -/
theorem Store.childAt_facing (hlist : store.cell? children = some (.list items))
    (hreversed : reflected.cell? opposite = some (.list items.reverse)) (place : Int) :
    reflected.childAt opposite ((Value.int place).facing items.length) =
      store.childAt children (.int place) := by
  by_cases hinside : 0 ≤ place ∧ place < items.length
  · obtain ⟨n, rfl⟩ := Int.eq_ofNat_of_zero_le hinside.1
    have hn : n < items.length := by omega
    have hfacing : (Value.int n).facing items.length = .int (items.length - 1 - n : Nat) := by
      simp only [Value.facing]
      congr 2
      omega
    rw [hfacing, childAt_list hreversed (by simp; omega), childAt_list hlist hn,
      List.getElem_reverse]
    congr 3
    omega
  · have houtside : ¬ (0 ≤ items.length - 1 - place ∧
        items.length - 1 - place < items.reverse.length) := by
      rw [List.length_reverse]
      omega
    rw [childAt_list_outside hlist hinside]
    exact childAt_list_outside hreversed houtside

theorem joinLabels_congr {labels : List Value}
    (hkinds : ∀ label ∈ labels, reflected.kind label = store.kind label) :
    joinLabels reflected labels = joinLabels store labels := by
  rw [joinLabels_eq, joinLabels_eq]
  rcases hfind : labels.zipIdx.find? (fun pair => pair.1.text?.isNone) with _ | pair
  · rw [hfind, Option.elim_none, Option.elim_none]
  · have hlabel : pair.1 ∈ labels :=
      List.fst_mem_of_mem_zipIdx (List.mem_of_find?_eq_some hfind)
    rw [hfind, Option.elim_some, Option.elim_some, hkinds pair.1 hlabel]

/-- The path to a node is written alike in stores that describe its nodes alike. -/
theorem pathText_congr {node : Value} {lineage : List Value}
    (hlabels : ∀ other ∈ lineage.reverse ++ [node], store.DescribesAlike reflected other) :
    pathText reflected node lineage = pathText store node lineage := by
  unfold pathText
  generalize lineage.reverse ++ [node] = nodes at hlabels
  have hsame : nodes.mapM reflected.describe = nodes.mapM store.describe := by
    induction nodes with
    | nil => rfl
    | cons first rest ih =>
      rw [List.forall_mem_cons] at hlabels
      rw [List.mapM_cons, List.mapM_cons, hlabels.1.label, ih hlabels.2]
  rw [hsame]
  by_cases hmade : ∀ other ∈ nodes, store.Describes other
  · rw [mapM_describe hmade]
    apply joinLabels_congr
    intro label hlabel
    obtain ⟨other, hmem, rfl⟩ := List.mem_map.mp hlabel
    exact (hlabels other hmem).kind _ (hmade other hmem)
  · obtain ⟨above, stranger, below, rfl, habove, hstranger⟩ := exists_first_not hmade
    obtain ⟨fault, hfails⟩ := (store.describes_or_fails stranger).resolve_left hstranger
    rw [mapM_describe_fails habove hfails]
    rfl

/-- A path is told alike in stores that describe its nodes alike. -/
theorem located_congr {node : Value} {lineage : List Value}
    (hlabels : ∀ other ∈ node :: lineage, store.DescribesAlike reflected other) (fault : Fault) :
    located reflected node lineage fault = located store node lineage fault := by
  have hpath : ∀ other ∈ lineage.reverse ++ [node], other ∈ node :: lineage := by
    intro other hmem
    simpa [or_comm] using hmem
  rw [located, located, pathText_congr fun other hmem => hlabels other (hpath other hmem)]

end Reversal

namespace Walker

variable {σ τ : Type}

/-- At a node the check and, if it passes, the visitor only look: in every store
    that is kept they come to the same, and they leave such a store. -/
structure Looks (walker : Walker σ) (kept : Store → Prop) (place : Place) (lineage : List Value)
    (verdict : Except Fault Bool) (answer : Except Fault Directive) : Prop where
  check : ∀ world, kept world.store →
    ∃ later, kept later.store ∧ callsIn later.journal = callsIn world.journal ∧
      walker.check place world = Act.ofExcept verdict later
  visit : verdict = .ok true → ∀ world, kept world.store →
    ∃ later, kept later.store ∧ callsIn later.journal = callsIn world.journal ∧
      ∃ result, walker.visit place lineage world = Act.ofExcept result later ∧
        result.bind (heard later.store) = answer

/-- What a node is answered with: with nothing if it does not pass. -/
def reply (verdict : Except Fault Bool) (answer : Except Fault Directive) :
    Except Fault Directive := do
  if ← verdict then answer else pure {}

/-- The calls made at a node. -/
def callsAt (verdict : Except Fault Bool) (place : Place) (lineage : List Value) : List Entry :=
  match verdict with
  | .ok true => [.visited place lineage, .offered place]
  | _ => [.offered place]

section Node

variable {walker : Walker σ} {kept : Store → Prop} {place : Place} {lineage : List Value}
  {verdict : Except Fault Bool} {answer : Except Fault Directive}

/-- A check and a visitor that go by what they are called with only look. -/
theorem Looks.of_pure {result : Except Fault Value}
    (hcheck : walker.check place = Act.ofExcept verdict)
    (hvisit : walker.visit place lineage = Act.ofExcept result)
    (hreads : ∀ store, kept store → result.bind (heard store) = answer) :
    walker.Looks kept place lineage verdict answer where
  check := fun world hkept => ⟨world, hkept, rfl, by rw [hcheck]⟩
  visit := fun _ world hkept => ⟨world, hkept, rfl, result, by rw [hvisit], hreads _ hkept⟩

/-- A node that is only looked at is dealt with as it is answered. -/
theorem Looks.one (hlooks : walker.Looks kept place lineage verdict answer) {world : World σ}
    (hkept : kept world.store) :
    ∃ later, kept later.store ∧
      callsIn later.journal = callsAt verdict place lineage ++ callsIn world.journal ∧
      walker.one place lineage world =
        Act.ofExcept ((reply verdict answer).mapError
          (walker.leaving place lineage later.store)) later := by
  obtain ⟨checked, hchecked, hcalls, hcheck⟩ :=
    hlooks.check { world with journal := .offered place :: world.journal } hkept
  rcases verdict with fault | passed
  · exact ⟨checked, hchecked, hcalls, (Raises.check hcheck).one_fails⟩
  · cases passed with
    | false =>
      exact ⟨checked, hchecked, hcalls, walker.one_of_consult (walker.consult_rejected hcheck)⟩
    | true =>
      obtain ⟨later, hlater, hmore, result, hvisit, rfl⟩ := hlooks.visit rfl
        { checked with journal := .visited place lineage :: checked.journal } hchecked
      have hboth : callsIn later.journal =
          callsAt (.ok true) place lineage ++ callsIn world.journal := by
        rw [hmore]
        exact congrArg (Entry.visited place lineage :: ·) hcalls
      rcases result with fault | value
      · exact ⟨later, hlater, hboth, (Raises.visit hcheck hvisit).one_fails⟩
      · obtain ⟨journal, hjournal, hheard⟩ := ofAnswer_heard value later
        refine ⟨{ later with journal }, hlater, hjournal.trans hboth, ?_⟩
        have hconsult := (walker.consult_called hcheck hvisit).trans hheard
        show _ = Act.ofExcept ((heard later.store value).mapError _) _
        cases hread : heard later.store value with
        | ok directive =>
          rw [hread] at hconsult
          exact walker.one_of_consult hconsult
        | error fault =>
          rw [hread] at hheard
          exact (Raises.answer hcheck hvisit hheard).one_fails

theorem callsAt_facing (count : Value → Nat) :
    (callsAt verdict place lineage).map (Entry.facing count) =
      callsAt verdict (place.facing count) lineage := by
  rcases verdict with fault | _ | _ <;> rfl

theorem reply_map (count : Value → Nat) :
    reply verdict (answer.map (Directive.facing count place)) =
      (reply verdict answer).map (Directive.facing count place) := by
  rcases verdict with fault | _ | _
  · rfl
  · simp [reply, bind, Except.bind, pure, Except.pure, Except.map, Directive.facing_empty]
  · rfl

end Node

/-- At a spot of a tree two walks only look, and the second, whose siblings are
    in opposite order, looks at the place and answers with the index counted
    from the other end. -/
structure Reflects (backward : Walker σ) (forward : Walker τ) (kept mirrored : Store → Prop)
    (count : Value → Nat) (spot : Spot) : Prop where
  looks : ∃ verdict answer, backward.Looks kept spot.place spot.lineage verdict answer ∧
    forward.Looks mirrored (spot.place.facing count) spot.lineage verdict
      (answer.map (Directive.facing count spot.place)) ∧
    (spot.place.index ≠ .null → ∀ directive, answer = .ok directive →
      directive.index = .null ∨ ∃ place, directive.index = .int place)
  head : ∀ store reflected, kept store → mirrored reflected →
    reflected.unwritable? (reflected.head spot.place.node) =
      store.unwritable? (store.head spot.place.node)
  labels : backward.annotate = true → ∀ store reflected, kept store → mirrored reflected →
    ∀ node ∈ spot.place.node :: spot.lineage, store.DescribesAlike reflected node

/-- The children of a node: listed in the stores that are kept, in opposite
    order in the mirrored ones, and all that is below them reflected. -/
structure Siblings (backward : Walker σ) (forward : Walker τ) (kept mirrored : Store → Prop)
    (count : Value → Nat) (path : List Nat) (parent : Value) (lineage : List Value)
    (children : List Tree) : Prop where
  list : ∀ store, kept store →
    store.cell? (store.children parent) = some (.list (children.map Tree.value))
  reversed : ∀ store, mirrored store →
    store.cell? (store.children parent) = some (.list (children.map Tree.value).reverse)
  gaps : ∀ child ∈ children, child.value = .null → child = .gap
  stand : ∀ child ∈ children, child.StandsReversed kept mirrored
  spots : ∀ spot ∈ Tree.spotsOfAll (fun _ => false) true path parent lineage 0 children,
    Reflects backward forward kept mirrored count spot

/-- The levels that a walk has open, each at the children of a node. -/
inductive Levels (backward : Walker σ) (forward : Walker τ) (kept mirrored : Store → Prop)
    (count : Value → Nat) : List Frame → List Value → Prop where
  | nil : Levels backward forward kept mirrored count [] []
  | cons {parent : Value} {children : List Tree} {path : List Nat} {place : Int}
      {frames : List Frame} {lineage : List Value}
      (hsiblings : Siblings backward forward kept mirrored count path parent (parent :: lineage)
        children)
      (houter : Levels backward forward kept mirrored count frames lineage) :
      Levels backward forward kept mirrored count (⟨parent, .int place⟩ :: frames)
        (parent :: lineage)

/-- Two walks are at the same levels, with their cursors counted from opposite
    ends. -/
structure Opposite (backward : Walker σ) (forward : Walker τ) (kept mirrored : Store → Prop)
    (count : Value → Nat) (descent other : Descent) : Prop where
  levels : Levels backward forward kept mirrored count descent.frames descent.lineage
  frames : other.frames = descent.frames.map (Frame.facing count)
  lineage : other.lineage = descent.lineage
  walked : other.walked = descent.walked

/-- Two worlds of opposite walks: each has its order, and the calls made in them
    face each other. -/
structure Opposed (kept mirrored : Store → Prop) (count : Value → Nat) (world : World σ)
    (other : World τ) : Prop where
  kept : kept world.store
  mirrored : mirrored other.store
  calls : CallsFace count world other

section Mirror

variable {backward : Walker σ} {forward : Walker τ} {kept mirrored : Store → Prop}
  {store : Store} {first : World σ} {second : World τ}

theorem Opposed.told {count : Value → Nat} (hworlds : Opposed kept mirrored count first second)
    (message other : String) :
    Opposed kept mirrored count (first.told message) (second.told other) where
  kept := hworlds.kept
  mirrored := hworlds.mirrored
  calls := by
    simpa only [CallsFace, callsIn_told] using hworlds.calls

section Consulting

variable {count : Value → Nat} {spot : Spot}
  (hannotate : forward.annotate = backward.annotate)
  (hspot : Reflects backward forward kept mirrored count spot)
  (hworlds : Opposed kept mirrored count first second)

include hannotate hspot

theorem Reflects.leaving_eq {store reflected : Store} (hkept : kept store)
    (hmirrored : mirrored reflected) (fault : Fault) :
    forward.leaving (spot.place.facing count) spot.lineage reflected fault =
      backward.leaving spot.place spot.lineage store fault := by
  rw [leaving, leaving, hannotate]
  split
  · next hannotates =>
    exact located_congr (hspot.labels hannotates store reflected hkept hmirrored) fault
  · rfl

include hworlds

/-- At a spot two opposite walks make the same calls and come to the same, but
    for the end from which indices are counted. -/
theorem Reflects.one_abreast :
    Abreast (Opposed kept mirrored count) Eq
      (fun directive other => other = directive.facing count spot.place ∧
        (spot.place.index ≠ .null →
          directive.index = .null ∨ ∃ place, directive.index = .int place))
      (backward.one spot.place spot.lineage first)
      (forward.one (spot.place.facing count) spot.lineage second) := by
  obtain ⟨verdict, answer, hbackward, hforward, hresume⟩ := hspot.looks
  obtain ⟨later, hkept, hcalls, hone⟩ := hbackward.one hworlds.kept
  obtain ⟨other, hmirrored, hothers, hrival⟩ := hforward.one hworlds.mirrored
  have hlater : Opposed kept mirrored count later other := by
    refine ⟨hkept, hmirrored, ?_⟩
    rw [CallsFace, hothers, hcalls, hworlds.calls, List.map_append, callsAt_facing]
  rw [hone, hrival, reply_map]
  rcases hreply : reply verdict answer with fault | directive
  · exact .error (hspot.leaving_eq hannotate hkept hmirrored fault).symm hlater
  · refine .ok ⟨rfl, fun hindex => ?_⟩ hlater
    rcases verdict with fault | _ | _
    · cases hreply
    · cases hreply
      exact Or.inl rfl
    · exact hresume hindex directive hreply

end Consulting

section Level

variable {count : Value → Nat} {path : List Nat} {parent : Value} {lineage : List Value}
  {children : List Tree}
  (hsiblings : Siblings backward forward kept mirrored count path parent lineage children)

include hsiblings

theorem Siblings.childCount_eq (hstore : kept store) :
    store.childCount parent = children.length := by
  rw [Store.childCount_list (hsiblings.list store hstore), List.length_map]

/-- A child that is a node is reflected, and so is all that is below it. -/
theorem Siblings.of_node {n : Nat} (hn : n < children.length) {child : Value}
    {grandchildren : List Tree} (hchild : children[n] = .node child grandchildren) :
    child ≠ .null ∧ (Tree.node child grandchildren).StandsReversed kept mirrored ∧
      Reflects backward forward kept mirrored count
        ⟨n :: path, ⟨child, .int n, parent⟩, lineage⟩ ∧
      ∀ spot ∈ Tree.spotsOfAll (fun _ => false) true (n :: path) child (child :: lineage) 0
        grandchildren, Reflects backward forward kept mirrored count spot := by
  have hmem : children[n] ∈ children := List.getElem_mem hn
  have hspots : ∀ spot ∈ children[n].spotsUnless (fun _ => false) true (n :: path) (.int n) parent
      lineage, Reflects backward forward kept mirrored count spot :=
    fun spot hspot => hsiblings.spots spot (mem_spotsOfAll_of_getElem hn hspot)
  rw [hchild] at hmem hspots
  rw [Tree.spotsUnless, List.forall_mem_cons] at hspots
  refine ⟨?_, hsiblings.stand _ hmem, hspots.1, hspots.2⟩
  intro hnull
  cases hsiblings.gaps _ hmem hnull

end Level

section Turns

variable (hbackward : backward.reverse = true) (hforward : forward.reverse = false)
  (hannotate : forward.annotate = backward.annotate) (hstore : kept store)

include hbackward hforward

/-- Whether by a step or by an answered index, cursors that face each other move
    to such cursors. -/
theorem cursorAfter_facing {index : Value} (hindex : index = .null ∨ ∃ place, index = .int place)
    (place : Int) (count : Nat) :
    ∃ next : Int, backward.cursorAfter (.int place) index = .int next ∧
      forward.cursorAfter ((Value.int place).facing count) (index.facing count) =
        (Value.int next).facing count := by
  rcases hindex with rfl | ⟨answered, rfl⟩
  · refine ⟨place - 1, ?_, ?_⟩
    · simp only [cursorAfter, if_pos, Value.moved, Value.position?, stride, hbackward]
      rfl
    · have hnext : (count : Int) - 1 - place + 1 = count - 1 - (place - 1) := by omega
      simp only [cursorAfter, Value.facing, if_pos, Value.moved, Value.position?, stride, hforward,
        Bool.false_eq_true, if_false, hnext]
  · exact ⟨answered, by simp [cursorAfter], by simp [cursorAfter, Value.facing]⟩

/-- However the cursors of a level move, they stay opposite. -/
theorem Siblings.opposite_moved {count : Value → Nat} {path : List Nat} {parent : Value}
    {lineage : List Value} {children : List Tree}
    (hsiblings : Siblings backward forward kept mirrored count path parent (parent :: lineage)
      children)
    {frames : List Frame} (houter : Levels backward forward kept mirrored count frames lineage)
    {index : Value} (hindex : index = .null ∨ ∃ place, index = .int place) (place : Int)
    (walked : Nat) :
    Opposite backward forward kept mirrored count
      ⟨⟨parent, backward.cursorAfter (.int place) index⟩ :: frames, parent :: lineage, walked⟩
      ⟨⟨parent, forward.cursorAfter ((Value.int place).facing (count parent))
          (index.facing (count parent))⟩ :: frames.map (Frame.facing count),
        parent :: lineage, walked⟩ := by
  obtain ⟨next, hnext, hfacing⟩ :=
    cursorAfter_facing hbackward hforward hindex place (count parent)
  rw [hnext, hfacing]
  exact ⟨.cons hsiblings houter, rfl, rfl, rfl⟩

include hstore

/-- A node is entered by both walks or by neither, from opposite ends. -/
theorem enter_opposite {descent other : Descent}
    (hdescents : Opposite backward forward kept mirrored store.childCount descent other)
    {value : Value} {children : List Tree} {path : List Nat}
    (hstands : (Tree.node value children).StandsReversed kept mirrored)
    (hspots : ∀ spot ∈ Tree.spotsOfAll (fun _ => false) true path value
      (value :: descent.lineage) 0 children,
        Reflects backward forward kept mirrored store.childCount spot)
    {directive rival : Directive} (haction : rival.action = directive.action)
    (hworlds : Opposed kept mirrored store.childCount first second) :
    ∃ next reply, backward.enter descent value directive first = .ok next first ∧
      forward.enter other value rival second = .ok reply second ∧
      Opposite backward forward kept mirrored store.childCount next reply := by
  cases hstands with
  | leaf hleaf hbare =>
    exact ⟨descent, other,
      enter_stays backward _ _ _ _ (Or.inl (hleaf _ hworlds.kept)),
      enter_stays forward _ _ _ _ (Or.inl (hbare _ hworlds.mirrored)), hdescents⟩
  | parent hlist hreversed hgaps hchildren =>
    by_cases hskip : directive.action = .action .skip
    · exact ⟨descent, other, enter_stays backward _ _ _ _ (Or.inr hskip),
        enter_stays forward _ _ _ _ (Or.inr (haction.trans hskip)), hdescents⟩
    · have hsiblings : Siblings backward forward kept mirrored store.childCount path value
          (value :: descent.lineage) children :=
        ⟨hlist, hreversed, hgaps, hchildren, hspots⟩
      have hfirst := hlist _ hworlds.kept
      have hsecond := hreversed _ hworlds.mirrored
      refine ⟨_, _,
        enter_descends backward descent value directive first
          (not_or.mpr ⟨Store.ne_null_of_list hfirst, hskip⟩) (startOf_list hfirst),
        enter_descends forward other value rival second
          (not_or.mpr ⟨Store.ne_null_of_list hsecond, haction ▸ hskip⟩) (startOf_list hsecond),
        ⟨.cons hsiblings hdescents.levels, ?_, ?_, hdescents.walked⟩⟩
      · simp [hdescents.frames, Frame.facing, Value.facing, hbackward, hforward,
          hsiblings.childCount_eq hstore]
      · simp [hdescents.lineage]

include hannotate

/-- A child that is a node ends both walks, or both go on from it. -/
theorem Siblings.step_node {path : List Nat} {parent : Value} {lineage : List Value}
    {children : List Tree}
    (hsiblings : Siblings backward forward kept mirrored store.childCount path parent
      (parent :: lineage) children)
    {frames : List Frame}
    (houter : Levels backward forward kept mirrored store.childCount frames lineage)
    {n : Nat} (hn : n < children.length) {child : Value} {grandchildren : List Tree}
    (hkind : children[n] = .node child grandchildren)
    (hworlds : Opposed kept mirrored store.childCount first second)
    (hchild : first.store.childAt (first.store.children parent) (.int n) = .ok (some child))
    (hfacing : second.store.childAt (second.store.children parent)
      ((Value.int n).facing (store.childCount parent)) = .ok (some child)) (walked : Nat) :
    Abreast (Opposed kept mirrored store.childCount) Eq
      (Step.Abreast (Opposite backward forward kept mirrored store.childCount))
      (backward.step ⟨⟨parent, .int n⟩ :: frames, parent :: lineage, walked⟩ first)
      (forward.step ⟨⟨parent, (Value.int n).facing (store.childCount parent)⟩ ::
        frames.map (Frame.facing store.childCount), parent :: lineage, walked⟩ second) := by
  let facing : Frame := ⟨parent, (Value.int n).facing (store.childCount parent)⟩
  have hface : second.store.childAt (second.store.children facing.parent) facing.cursor =
    .ok (some child) := hfacing
  obtain ⟨hnode, hstands, hspot, hspots⟩ := hsiblings.of_node hn hkind
  have hone := hspot.one_abreast hannotate hworlds
  generalize hmine : backward.one _ _ first = mine at hone
  generalize hother : forward.one _ _ second = other at hone
  cases hone with
  | error hfaults hlater =>
    rw [step_child_fails backward hnode hchild hmine, step_child_fails forward hnode hface hother]
    exact .error hfaults hlater
  | @ok directive _ _ _ hresults hlater =>
    obtain ⟨rfl, hresume⟩ := hresults
    let place : Place := ⟨child, .int n, parent⟩
    have hplace : place.index ≠ .null := by simp [place]
    have haction := directive.facing_action store.childCount place
    have hindex := directive.facing_index store.childCount hplace
    by_cases hexit : directive.action = .action .exit
    · rw [step_child_leaves backward hnode hchild hmine hexit,
        step_child_leaves forward hnode hface hother (haction.trans hexit)]
      exact leave_abreast (fun _ _ => hlater.told _ _) hlater
        (hspot.head _ _ hlater.kept hlater.mirrored) _ _
    · have hmoved := hsiblings.opposite_moved hbackward hforward houter (hresume hplace) n
        (walked + 1)
      obtain ⟨next, reply, hnext, hreply, hopposite⟩ :=
        enter_opposite hbackward hforward hstore hmoved hstands hspots haction hlater
      rw [← hindex] at hreply
      rw [step_child_goes_on backward hnode hchild hmine hexit hnext,
        step_child_goes_on forward hnode hface hother (haction ▸ hexit) hreply]
      exact .ok (.more hopposite) hlater

/-- A turn of a walk backward and one of a walk forward among the reversed
    siblings keep them opposite: both leave the level, both pass a gap, or both
    deal with the same node. -/
theorem step_opposite {descent other : Descent}
    (hdescents : Opposite backward forward kept mirrored store.childCount descent other)
    (hworlds : Opposed kept mirrored store.childCount first second) :
    Abreast (Opposed kept mirrored store.childCount) Eq
      (Step.Abreast (Opposite backward forward kept mirrored store.childCount))
      (backward.step descent first) (forward.step other second) := by
  obtain ⟨frames, lineage, passed⟩ := descent
  obtain ⟨rivals, others, walked⟩ := other
  obtain ⟨hlevels, hframes, hlineage, hwalked⟩ := hdescents
  simp only at hframes hlineage hwalked
  subst hframes hlineage hwalked
  cases hlevels with
  | nil => exact .ok (.done .finished) (hworlds.told _ _)
  | @cons parent children path place frames lineage hsiblings houter =>
    have hlist := hsiblings.list _ hworlds.kept
    have hface : second.store.childAt (second.store.children parent)
        ((Value.int place).facing (store.childCount parent)) =
          first.store.childAt (first.store.children parent) (.int place) := by
      rw [hsiblings.childCount_eq hstore, ← List.length_map Tree.value]
      exact Store.childAt_facing hlist (hsiblings.reversed _ hworlds.mirrored) place
    -- A cursor below the first child faces one beyond the last, and the other way round, so the
    -- walk backward alone tells in which of the cases both are.
    by_cases hinside : 0 ≤ place ∧ place < children.length
    · obtain ⟨n, rfl⟩ := Int.eq_ofNat_of_zero_le hinside.1
      have hn : n < children.length := by omega
      have hchild : first.store.childAt (first.store.children parent) (.int n) =
          .ok (some children[n].value) := by
        rw [Store.childAt_list hlist (by simpa using hn), List.getElem_map]
      rw [hchild] at hface
      cases hkind : children[n] with
      | gap =>
        rw [hkind] at hchild hface
        have hmoved := hsiblings.opposite_moved hbackward hforward houter (Or.inl rfl) n walked
        rw [step_passes backward hchild]
        rw [List.map_cons, Frame.facing, step_passes forward hface]
        exact .ok (.more hmoved) hworlds
      | node child grandchildren =>
        rw [hkind] at hchild hface
        exact hsiblings.step_node hbackward hforward hannotate hstore houter hn hkind hworlds
          hchild hface walked
    · have hnone : first.store.childAt (first.store.children parent) (.int place) = .ok none :=
        Store.childAt_list_outside hlist (by simpa using hinside)
      rw [hnone] at hface
      rw [step_leaves backward hnone, List.map_cons, Frame.facing, step_leaves forward hface]
      exact .ok (.more ⟨houter, rfl, rfl, rfl⟩) hworlds

/-- Before the first turn both walks have dealt with the root. -/
theorem start_opposite {value : Value} {children : List Tree}
    (hstands : (Tree.node value children).StandsReversed kept mirrored)
    (hspots : ∀ spot ∈ (Tree.node value children).spots true,
      Reflects backward forward kept mirrored store.childCount spot)
    (hworlds : Opposed kept mirrored store.childCount first second) :
    Abreast (Opposed kept mirrored store.childCount) Eq
      (Step.Abreast (Opposite backward forward kept mirrored store.childCount))
      (backward.start value first) (forward.start value second) := by
  rw [Tree.spots, Tree.spotsUnless, List.forall_mem_cons] at hspots
  obtain ⟨hroot, hbelow⟩ := hspots
  have hboth := announce_abreast (fun _ _ => hworlds.told _ _) hworlds
    (hroot.head _ _ hworlds.kept hworlds.mirrored) backward forward
  generalize hannounce : backward.announce value first = opening at hboth
  generalize hother : forward.announce value second = reply at hboth
  cases hboth with
  | error hfaults hworlds =>
    rw [start_announce_fails backward hannounce, start_announce_fails forward hother]
    exact .error hfaults hworlds
  | @ok _ _ opened begun _ hopened =>
    have hone := hroot.one_abreast hannotate hopened
    generalize hmine : backward.one _ _ opened = mine at hone
    generalize hrival : forward.one _ _ begun = rival at hone
    cases hone with
    | error hfaults hlater =>
      rw [start_fails backward hannounce hmine, start_fails forward hother hrival]
      exact .error hfaults hlater
    | @ok directive _ _ _ hresults hlater =>
      -- An index answered at the root is left as it is, and neither walk looks at it.
      rw [hresults.1] at hrival
      have haction := directive.facing_action store.childCount { node := value }
      by_cases hexit : directive.action = .action .exit
      · rw [start_exits backward hannounce hmine hexit,
          start_exits forward hother hrival (haction.trans hexit)]
        exact .ok (.done .exited) (hlater.told _ _)
      · have hempty : Opposite backward forward kept mirrored store.childCount ⟨[], [], 1⟩
            ⟨[], [], 1⟩ := ⟨.nil, rfl, rfl, rfl⟩
        obtain ⟨next, reply, hnext, hreply, hopposite⟩ :=
          enter_opposite hbackward hforward hstore hempty hstands hbelow haction hlater
        rw [start_goes_on backward hannounce hmine hexit hnext,
          start_goes_on forward hother hrival (haction ▸ hexit) hreply]
        exact .ok (.more hopposite) hlater

end Turns

end Mirror

/-- Two walks are at the same levels, counted from opposite ends, have the same
    ancestors and have made the same calls up to now. -/
structure Stage.Faces (count : Value → Nat) (stage : Stage σ) (other : Stage τ) : Prop where
  frames : other.descent.frames = stage.descent.frames.map (Frame.facing count)
  lineage : other.descent.lineage = stage.descent.lineage
  calls : CallsFace count stage.world other.world

/-- A walk backward is the mirror image of a walk forward: over a tree of lists
    and the same tree with all lists reversed, in which the labels of the same
    nodes can be written, with a check and a visitor that
    only look and of which the second ones see and answer with indices counted
    from the other end, the two walks are at the same place after every turn,
    have made the same calls with the same ancestors in the same order, and come
    to the same ending or failure after as many turns, or neither ends. -/
theorem backward_mirrors_forward {backward : Walker σ} {forward : Walker τ}
    (hbackward : backward.reverse = true) (hforward : forward.reverse = false)
    (hannotate : forward.annotate = backward.annotate)
    {tree : Tree} (hnode : tree ≠ .gap) {kept mirrored : Store → Prop}
    (hstands : tree.StandsReversed kept mirrored)
    {store reflected : Store} (hstore : kept store) (hreflected : mirrored reflected)
    (verdict : Place → Except Fault Bool) (answer : Place → List Value → Except Fault Directive)
    (hlooks : ∀ spot ∈ tree.spots true, backward.Looks kept spot.place spot.lineage
      (verdict spot.place) (answer spot.place spot.lineage))
    (hmirrors : ∀ spot ∈ tree.spots true,
      forward.Looks mirrored (spot.place.facing store.childCount) spot.lineage
        (verdict spot.place)
        ((answer spot.place spot.lineage).map (Directive.facing store.childCount spot.place)))
    (hresume : ∀ spot ∈ tree.spots true, spot.place.index ≠ .null →
      ∀ directive, answer spot.place spot.lineage = .ok directive →
        directive.index = .null ∨ ∃ place, directive.index = .int place)
    (hheads : ∀ spot ∈ tree.spots true, ∀ first second, kept first → mirrored second →
      second.unwritable? (second.head spot.place.node) =
        first.unwritable? (first.head spot.place.node))
    (hlabels : backward.annotate = true → ∀ spot ∈ tree.spots true,
      ∀ first second, kept first → mirrored second →
        ∀ node ∈ spot.place.node :: spot.lineage, first.DescribesAlike second node)
    (mine : σ) (other : τ) :
    (∀ turns, Option.Rel (Stage.Faces store.childCount)
      (backward.stageAt tree.value ⟨store, [], mine⟩ turns)
      (forward.stageAt tree.value ⟨reflected, [], other⟩ turns)) ∧
    ∀ fuel, Option.Rel (Abreast (CallsFace store.childCount) Eq Eq)
      (backward.walk fuel tree.value ⟨store, [], mine⟩)
      (forward.walk fuel tree.value ⟨reflected, [], other⟩) := by
  have hspots : ∀ spot ∈ tree.spots true,
      Reflects backward forward kept mirrored store.childCount spot := by
    intro spot hspot
    refine ⟨⟨_, _, hlooks spot hspot, hmirrors spot hspot, hresume spot hspot⟩,
      hheads spot hspot, ?_⟩
    exact fun hannotates => hlabels hannotates spot hspot
  obtain _ | ⟨value, children⟩ := tree
  · exact (hnode rfl).elim
  have hworlds : Opposed kept mirrored store.childCount (⟨store, [], mine⟩ : World σ)
      (⟨reflected, [], other⟩ : World τ) := ⟨hstore, hreflected, rfl⟩
  have hstart := start_opposite hbackward hforward hannotate hstore hstands hspots hworlds
  have hstep : ∀ descent rival first second,
      Opposite backward forward kept mirrored store.childCount descent rival →
      Opposed kept mirrored store.childCount first second →
      Abreast (Opposed kept mirrored store.childCount) Eq
        (Step.Abreast (Opposite backward forward kept mirrored store.childCount))
        (backward.step descent first) (forward.step rival second) :=
    fun _ _ _ _ => step_opposite hbackward hforward hannotate hstore
  constructor
  · intro turns
    refine rel_mono ?_ (stageAt_abreast hstep hstart turns)
    intro stage rival hstages
    exact ⟨hstages.1.frames, hstages.1.lineage, hstages.2.calls⟩
  · intro fuel
    refine rel_mono ?_ (walk_abreast hstep hstart fuel)
    exact fun _ _ => Abreast.mono fun _ _ => Opposed.calls

/-- A root and one of its children, each with a list of children. -/
def terrace (outer inner : List Value) : Store :=
  ⟨#[.mapping [("children", .cell ⟨1⟩)], .list outer, .mapping [("children", .cell ⟨3⟩)],
    .list inner, .mapping [("type", .text "leaf")], .mapping []]⟩

def terraceUpright : Store :=
  terrace [.cell ⟨4⟩, .null, .cell ⟨2⟩, .cell ⟨5⟩] [.cell ⟨4⟩, .cell ⟨5⟩]

def terraceReversed : Store :=
  terrace [.cell ⟨5⟩, .cell ⟨2⟩, .null, .cell ⟨4⟩] [.cell ⟨5⟩, .cell ⟨4⟩]

/-- The tree of these stores; both leaves are in two places. -/
def terraceTree : Tree :=
  .node (.cell ⟨0⟩)
    [.node (.cell ⟨4⟩) [], .gap, .node (.cell ⟨2⟩) [.node (.cell ⟨4⟩) [], .node (.cell ⟨5⟩) []],
      .node (.cell ⟨5⟩) []]

theorem terraceTree_standsReversed :
    terraceTree.StandsReversed (· = terraceUpright) (· = terraceReversed) := by
  have hfirst : (Tree.node (.cell ⟨4⟩) []).StandsReversed (· = terraceUpright)
      (· = terraceReversed) := .leaf (by rintro _ rfl; rfl) (by rintro _ rfl; rfl)
  have hlast : (Tree.node (.cell ⟨5⟩) []).StandsReversed (· = terraceUpright)
      (· = terraceReversed) := .leaf (by rintro _ rfl; rfl) (by rintro _ rfl; rfl)
  have hinner : (Tree.node (.cell ⟨2⟩)
      [.node (.cell ⟨4⟩) [], .node (.cell ⟨5⟩) []]).StandsReversed (· = terraceUpright)
      (· = terraceReversed) := by
    refine .parent (by rintro _ rfl; rfl) (by rintro _ rfl; rfl) (by simp [Tree.value]) ?_
    simpa using ⟨hfirst, hlast⟩
  refine .parent (by rintro _ rfl; rfl) (by rintro _ rfl; rfl) (by simp [Tree.value]) ?_
  simpa using ⟨hfirst, .gap, hinner, hlast⟩

/-- Leaves the inner level at once and fails at the first child of the root. -/
def hurry (place : Place) : Except Fault Value :=
  if place.parent = .cell ⟨2⟩ then .ok (.int (-7))
  else if place.index = .int 0 then .error boom
  else .ok .null

def hurryBackward : Walker Unit where
  check _ := Act.ofExcept (.ok true)
  visit place _ := Act.ofExcept (hurry place)
  reverse := true
  annotate := true

/-- The same for siblings in opposite order. -/
def hurryForward : Walker Unit where
  check _ := Act.ofExcept (.ok true)
  visit place _ := Act.ofExcept
    ((hurry (place.facing terraceUpright.childCount)).map
      (Value.facing (terraceUpright.childCount place.parent)))
  reverse := false
  annotate := true

/-- Backward the last child, the inner parent and the last child of that are
    visited before the failure at the first child. Forward over the reversed
    lists the same calls are made, and the same failure is noted at the same
    node. -/
theorem hurry_mirrored :
    ∃ final,
      hurryBackward.walk 6 (.cell ⟨0⟩) ⟨terraceUpright, [], ()⟩ =
        some (.error (boom.note "while visiting dict > leaf") final) ∧
      (visitsOf final.journal).map (fun call => (call.1.index, call.1.parent)) =
        [(.int 0, .cell ⟨0⟩), (.int 1, .cell ⟨2⟩), (.int 2, .cell ⟨0⟩), (.int 3, .cell ⟨0⟩),
          (.null, .null)] ∧
      ∃ other,
        hurryForward.walk 6 (.cell ⟨0⟩) ⟨terraceReversed, [], ()⟩ =
          some (.error (boom.note "while visiting dict > leaf") other) ∧
        CallsFace terraceUpright.childCount final other := by
  let answer : Place → List Value → Except Fault Directive := fun place _ =>
    (hurry place).bind (heard terraceUpright)
  have hspots : terraceTree.spots true =
      [⟨[], { node := .cell ⟨0⟩ }, []⟩,
        ⟨[3], ⟨.cell ⟨5⟩, .int 3, .cell ⟨0⟩⟩, [.cell ⟨0⟩]⟩,
        ⟨[2], ⟨.cell ⟨2⟩, .int 2, .cell ⟨0⟩⟩, [.cell ⟨0⟩]⟩,
        ⟨[1, 2], ⟨.cell ⟨5⟩, .int 1, .cell ⟨2⟩⟩, [.cell ⟨2⟩, .cell ⟨0⟩]⟩,
        ⟨[0, 2], ⟨.cell ⟨4⟩, .int 0, .cell ⟨2⟩⟩, [.cell ⟨2⟩, .cell ⟨0⟩]⟩,
        ⟨[0], ⟨.cell ⟨4⟩, .int 0, .cell ⟨0⟩⟩, [.cell ⟨0⟩]⟩] := rfl
  have hlooks : ∀ spot ∈ terraceTree.spots true, hurryBackward.Looks (· = terraceUpright)
      spot.place spot.lineage (.ok true) (answer spot.place spot.lineage) := by
    intro spot _
    exact Looks.of_pure rfl rfl (by rintro _ rfl; rfl)
  have hmirrors : ∀ spot ∈ terraceTree.spots true, hurryForward.Looks (· = terraceReversed)
      (spot.place.facing terraceUpright.childCount) spot.lineage (.ok true)
      ((answer spot.place spot.lineage).map
        (Directive.facing terraceUpright.childCount spot.place)) := by
    intro spot hspot
    refine @Looks.of_pure _ _ _ _ _ _ _ ((hurry ((spot.place.facing
      terraceUpright.childCount).facing terraceUpright.childCount)).map
        (Value.facing (terraceUpright.childCount spot.place.parent))) rfl rfl ?_
    rw [hspots] at hspot
    revert spot
    simp only [List.forall_mem_cons]
    refine ⟨?_, ?_, ?_, ?_, ?_, ?_, by simp⟩ <;>
    · rintro _ rfl
      rfl
  have hresume : ∀ spot ∈ terraceTree.spots true, spot.place.index ≠ .null →
      ∀ directive, answer spot.place spot.lineage = .ok directive →
        directive.index = .null ∨ ∃ place, directive.index = .int place := by
    simp only [hspots, List.forall_mem_cons]
    refine ⟨?_, ?_, ?_, ?_, ?_, ?_, by simp⟩ <;> rintro - directive ⟨⟩ <;> simp
  have hheads : ∀ spot ∈ terraceTree.spots true,
      terraceReversed.unwritable? (terraceReversed.head spot.place.node) =
        terraceUpright.unwritable? (terraceUpright.head spot.place.node) := by
    simp only [hspots, List.forall_mem_cons]
    refine ⟨?_, ?_, ?_, ?_, ?_, ?_, by simp⟩ <;> rfl
  have hlabels : ∀ spot ∈ terraceTree.spots true, ∀ node ∈ spot.place.node :: spot.lineage,
      terraceUpright.DescribesAlike terraceReversed node := by
    simp only [hspots, List.forall_mem_cons, List.not_mem_nil, false_implies, implies_true, and_true]
    refine ⟨?_, ⟨?_, ?_⟩, ⟨?_, ?_⟩, ⟨?_, ?_, ?_⟩, ⟨?_, ?_, ?_⟩, ⟨?_, ?_⟩⟩ <;>
      exact ⟨rfl, by rintro _ ⟨⟩; rfl⟩
  obtain ⟨_, hwalks⟩ := @backward_mirrors_forward Unit Unit hurryBackward hurryForward rfl rfl rfl
    terraceTree (by simp [terraceTree]) _ _ terraceTree_standsReversed terraceUpright
    terraceReversed rfl rfl (fun _ => .ok true) answer hlooks hmirrors hresume
    (by rintro spot hspot _ _ rfl rfl; exact hheads spot hspot)
    (by rintro - spot hspot _ _ rfl rfl; exact hlabels spot hspot) () ()
  exact ⟨_, rfl, rfl, exists_error_of_rel (hwalks 6)⟩

end Walker

end Lineage
