import Lineage.Collect
import Lineage.Proofs.Selector.Matching
import Lineage.Proofs.Walk.Preorder
import Mathlib.Data.List.Forall2

namespace Lineage

namespace Datum

/-- A datum stands at a value: the value is what putting the datum into a store
    came to, and all that was put there is still in place. -/
def StandsAt (store : Store) (datum : Datum) (value : Value) : Prop :=
  ∃ earlier, (datum.build earlier).1 = value ∧ (datum.build earlier).2.Extends store

/-- The properties that a datum shows as a node. -/
def property? (datum : Datum) (key : String) : Option Datum :=
  match datum with
  | .mapping fields => fields.lookup key
  | .scalar s =>
    match s.properties.lookup key with
    | some (.scalar part) => some (.scalar part)
    | _ => none
  | _ => none

/-- The children of a datum, null for a leaf. -/
def children (datum : Datum) : Datum :=
  (datum.property? "children").getD .null

/-- The members of a sequence. -/
def members? : Datum → Option (List Datum)
  | .scalar s => s.text?.map fun letters => letters.toList.map fun c => text c.toString
  | .list items | .tuple items => some items
  | .mapping _ => none

section Standing

variable {store later : Store} {datum : Datum} {value : Value}

theorem standsAt_build (datum : Datum) (store : Store) :
    datum.StandsAt (datum.build store).2 (datum.build store).1 :=
  ⟨store, rfl, Store.Extends.refl _⟩

theorem StandsAt.extend (hstands : datum.StandsAt store value) (hextends : store.Extends later) :
    datum.StandsAt later value := by
  obtain ⟨earlier, hvalue, hearlier⟩ := hstands
  exact ⟨earlier, hvalue, hearlier.trans hextends⟩

theorem standsAt_scalar (store : Store) (s : Scalar) : (scalar s).StandsAt store (.scalar s) :=
  ⟨.empty, rfl, fun _ _ hget => by simp [Store.get?, build, Store.empty] at hget⟩

theorem StandsAt.isData (hstands : datum.StandsAt store value) : store.IsData value := by
  obtain ⟨earlier, rfl, hextends⟩ := hstands
  exact (isData_build datum earlier).extend hextends

theorem StandsAt.hasData (hstands : datum.StandsAt store value) : store.HasData value := by
  obtain ⟨earlier, rfl, hextends⟩ := hstands
  exact Store.hasData_build hextends

theorem standsAt_items {items : List Datum} {earlier : Store}
    (hextends : (buildItems items earlier).2.Extends store) :
    List.Forall₂ (StandsAt store) items (buildItems items earlier).1 := by
  induction items generalizing earlier with
  | nil => exact .nil
  | cons item rest ih =>
    refine .cons ⟨earlier, rfl, ?_⟩ (ih hextends)
    exact (extends_buildItems rest _).trans hextends

theorem standsAt_fields {fields : List (String × Datum)} {earlier : Store}
    (hextends : (buildFields fields earlier).2.Extends store) (key : String) :
    Option.Rel (StandsAt store) (fields.lookup key)
      ((buildFields fields earlier).1.lookup key) := by
  induction fields generalizing earlier with
  | nil => exact .none
  | cons field rest ih =>
    obtain ⟨name, item⟩ := field
    have hrest := @ih (item.build earlier).2 hextends
    show Option.Rel _ (List.lookup key ((name, item) :: rest)) (List.lookup key
      ((name, (item.build earlier).1) :: (buildFields rest (item.build earlier).2).1))
    rw [List.lookup_cons, List.lookup_cons]
    split
    · exact .some ⟨earlier, rfl, (extends_buildFields rest _).trans hextends⟩
    · exact hrest

/-- A container stands where it was put, with its parts. -/
theorem StandsAt.cases (hstands : datum.StandsAt store value) :
    match datum with
    | .scalar s => value = .scalar s
    | .list items =>
      ∃ values, store.cell? value = some (.list values) ∧
        List.Forall₂ (StandsAt store) items values
    | .tuple items =>
      ∃ values, store.cell? value = some (.tuple values) ∧
        List.Forall₂ (StandsAt store) items values
    | .mapping fields =>
      ∃ values, store.cell? value = some (.mapping values) ∧
        ∀ key, Option.Rel (StandsAt store) (fields.lookup key) (values.lookup key) := by
  obtain ⟨earlier, rfl, hextends⟩ := hstands
  cases datum with
  | scalar s => rfl
  | list items =>
    exact ⟨_, hextends _ _ (Store.get?_alloc_self _ _),
      standsAt_items ((Store.extends_alloc _ _).trans hextends)⟩
  | tuple items =>
    exact ⟨_, hextends _ _ (Store.get?_alloc_self _ _),
      standsAt_items ((Store.extends_alloc _ _).trans hextends)⟩
  | mapping fields =>
    exact ⟨_, hextends _ _ (Store.get?_alloc_self _ _),
      standsAt_fields ((Store.extends_alloc _ _).trans hextends)⟩

/-- The properties of a node stand for those of the datum that it stands for. -/
theorem StandsAt.property? (hstands : datum.StandsAt store value) (key : String) :
    Option.Rel (StandsAt store) (datum.property? key) (store.property? value key) := by
  have hcell : ∀ cell, store.cell? value = some cell →
      store.property? value key = cell.property? key := by
    intro cell hcell
    cases value with
    | scalar s => cases hcell
    | function f => cases hcell
    | cell ref =>
      show (store.cell? (.cell ref)).bind _ = _
      rw [hcell]
      rfl
  cases datum with
  | scalar s =>
    obtain rfl : value = .scalar s := hstands.cases
    simp only [Datum.property?, Store.property?]
    cases hfound : s.properties.lookup key with
    | none => exact .none
    | some found =>
      obtain ⟨part, rfl⟩ := s.properties_scalar (key, found) (mem_of_lookup_eq_some hfound)
      exact .some (standsAt_scalar store part)
  | list items =>
    obtain ⟨values, hlist, _⟩ := hstands.cases
    rw [hcell _ hlist]
    exact .none
  | tuple items =>
    obtain ⟨values, htuple, _⟩ := hstands.cases
    rw [hcell _ htuple]
    exact .none
  | mapping fields =>
    obtain ⟨values, hmapping, hfields⟩ := hstands.cases
    rw [hcell _ hmapping]
    exact hfields key

theorem StandsAt.getD {found : Option Datum} {read : Option Value}
    (hrel : Option.Rel (StandsAt store) found read) :
    (found.getD .null).StandsAt store (read.getD .null) := by
  cases hrel with
  | none => exact standsAt_scalar store .null
  | some hstands => exact hstands

theorem StandsAt.children (hstands : datum.StandsAt store value) :
    datum.children.StandsAt store (store.children value) :=
  .getD (hstands.property? "children")

/-- The members of a sequence stand for those of the datum. -/
theorem StandsAt.members? (hstands : datum.StandsAt store value) :
    Option.Rel (List.Forall₂ (StandsAt store)) datum.members? (store.members? value) := by
  have hletters : ∀ letters : List Char, List.Forall₂ (StandsAt store)
      (letters.map fun c => text c.toString) (letters.map fun c => Value.text c.toString) := by
    intro letters
    rw [List.forall₂_map_left_iff, List.forall₂_map_right_iff, List.forall₂_same]
    intro c _
    exact standsAt_scalar store _
  cases datum with
  | scalar s =>
    obtain rfl : value = .scalar s := hstands.cases
    cases s with
    | text letters => exact .some (hletters letters.toList)
    | action a => exact .some (hletters a.text.toList)
    | _ => exact .none
  | list items =>
    obtain ⟨values, hlist, hitems⟩ := hstands.cases
    rw [Store.members?_list hlist]
    exact .some hitems
  | tuple items =>
    obtain ⟨values, htuple, hitems⟩ := hstands.cases
    cases value with
    | scalar s => cases htuple
    | function f => cases htuple
    | cell ref =>
      simp only [Store.members?, htuple]
      exact .some hitems
  | mapping fields =>
    obtain ⟨values, hmapping, _⟩ := hstands.cases
    cases value with
    | scalar s => cases hmapping
    | function f => cases hmapping
    | cell ref =>
      simp only [Store.members?, hmapping]
      exact .none

theorem StandsAt.members (hstands : datum.StandsAt store value) :
    List.Forall₂ (StandsAt store) (datum.members?.getD []) ((store.members? value).getD []) := by
  have hrel := hstands.members?
  generalize datum.members? = found at hrel ⊢
  generalize store.members? value = read at hrel ⊢
  cases hrel with
  | none => exact .nil
  | some hmembers => exact hmembers

/-- Only null stands at null. -/
theorem StandsAt.ne_null (hstands : datum.StandsAt store value) (hdatum : datum ≠ .null) :
    value ≠ .null := by
  rintro rfl
  cases datum with
  | scalar s =>
    cases hstands.cases
    exact hdatum rfl
  | list items =>
    obtain ⟨values, hlist, _⟩ := hstands.cases
    cases hlist
  | tuple items =>
    obtain ⟨values, htuple, _⟩ := hstands.cases
    cases htuple
  | mapping fields =>
    obtain ⟨values, hmapping, _⟩ := hstands.cases
    cases hmapping

/-- Data holds no table. -/
theorem StandsAt.ne_table (hstands : datum.StandsAt store value) (entries : Entries) :
    store.cell? value ≠ some (.table entries) := by
  intro htable
  cases datum with
  | scalar s =>
    cases hstands.cases
    cases htable
  | list items =>
    obtain ⟨values, hlist, _⟩ := hstands.cases
    cases hlist.symm.trans htable
  | tuple items =>
    obtain ⟨values, htuple, _⟩ := hstands.cases
    cases htuple.symm.trans htable
  | mapping fields =>
    obtain ⟨values, hmapping, _⟩ := hstands.cases
    cases hmapping.symm.trans htable

/-- Every child of a node stands for a datum. -/
theorem StandsAt.exists_child {cursor child : Value} (hstands : datum.StandsAt store value)
    (hchild : store.childAt (store.children value) cursor = .ok (some child)) :
    ∃ member : Datum, member.StandsAt store child := by
  obtain ⟨values, hvalues, n, _, hn, rfl⟩ :=
    Store.members?_of_childAt hstands.children.ne_table hchild
  have hmembers := hstands.children.members
  rw [hvalues] at hmembers
  exact ⟨_, hmembers.get (by rw [hmembers.length_eq]; exact hn) hn⟩

end Standing

/-- What it takes at most to walk a datum: two turns for each of its parts, but
    one for a scalar, which has no children. -/
def toll : Datum → Nat
  | .scalar _ => 1
  | datum => 2 * datum.weight

/-- What it takes to walk the members of a sequence. -/
def tolls : List Datum → Nat
  | [] => 0
  | datum :: rest => datum.toll + tolls rest

section Toll

theorem weight_pos (datum : Datum) : 0 < datum.weight := by
  cases datum <;> simp [weight]

theorem toll_pos (datum : Datum) : 0 < datum.toll := by
  have hpos := weight_pos datum
  cases datum <;> simp [toll, hpos]

theorem toll_le (datum : Datum) : datum.toll ≤ 2 * datum.weight := by
  have hpos := weight_pos datum
  cases datum with
  | scalar s => show 1 ≤ _; omega
  | _ => exact Nat.le_refl _

theorem tolls_append (first second : List Datum) :
    tolls (first ++ second) = tolls first + tolls second := by
  induction first with
  | nil => simp [tolls]
  | cons datum rest ih =>
    simp only [List.cons_append, tolls, ih]
    omega

theorem tolls_le (items : List Datum) : tolls items ≤ 2 * weights items := by
  induction items with
  | nil => simp [tolls]
  | cons item rest ih =>
    have hitem := toll_le item
    simp only [tolls, weights]
    omega

/-- The letters of a text are scalars. -/
theorem tolls_letters (letters : List Char) :
    tolls (letters.map fun c => text c.toString) = letters.length := by
  induction letters with
  | nil => rfl
  | cons c rest ih =>
    simp only [List.map_cons, tolls, ih, toll, List.length_cons]
    omega

theorem tolls_members (datum : Datum) : tolls (datum.members?.getD []) ≤ 2 * datum.weight := by
  cases datum with
  | scalar s =>
    rw [members?, weight]
    cases s.text? with
    | none => simp [tolls]
    | some letters =>
      simp only [Option.map_some, Option.getD_some, tolls_letters, String.length_toList]
      omega
  | list items =>
    have hsum := tolls_le items
    simp only [members?, Option.getD_some, weight]
    omega
  | tuple items =>
    have hsum := tolls_le items
    simp only [members?, Option.getD_some, weight]
    omega
  | mapping fields => simp [members?, tolls]

theorem weight_le_of_lookup {fields : List (String × Datum)} {key : String} {datum : Datum}
    (hlookup : fields.lookup key = some datum) : datum.weight ≤ fieldWeights fields := by
  induction fields with
  | nil => cases hlookup
  | cons field rest ih =>
    rw [List.lookup_cons] at hlookup
    rw [fieldWeights]
    split at hlookup
    · cases hlookup
      omega
    · have hrest := ih hlookup
      omega

/-- A node pays for going down to its children and for coming back. -/
theorem tolls_children {datum : Datum} (hchildren : datum.children ≠ .null) :
    tolls (datum.children.members?.getD []) + 2 ≤ datum.toll := by
  cases hproperty : datum.property? "children" with
  | none =>
    rw [children, hproperty] at hchildren
    exact (hchildren rfl).elim
  | some found =>
    cases datum with
    | mapping fields =>
      have hfound : (mapping fields).children = found := by
        rw [children, hproperty]
        rfl
      have hsum := tolls_members found
      have hweight := weight_le_of_lookup hproperty
      rw [hfound]
      show _ ≤ 2 * (mapping fields).weight
      rw [weight]
      omega
    | scalar s => cases s <;> cases hproperty
    | list items => cases hproperty
    | tuple items => cases hproperty

end Toll

end Datum

namespace Walker

variable {σ : Type}

/-- The members that are still to come at a place. -/
def remaining {α : Type} (reverse : Bool) (members : List α) (place : Int) : List α :=
  if reverse then members.take (place + 1).toNat else members.drop place.toNat

/-- The number of turns for which frames are good at most: a turn to leave each
    of them, and what the members that are still to come take. -/
inductive Owes (store : Store) (reverse : Bool) : List Frame → Nat → Prop where
  | nil : Owes store reverse [] 0
  | cons {parent : Value} {place : Int} {outer : List Frame} {members : List Datum} {debt : Nat}
      (hmembers : List.Forall₂ (Datum.StandsAt store) members
        ((store.members? (store.children parent)).getD []))
      (hplain : ∀ entries, store.cell? (store.children parent) ≠ some (.table entries))
      (houter : Owes store reverse outer debt) :
      Owes store reverse (⟨parent, .int place⟩ :: outer)
        (Datum.tolls (remaining reverse members place) + 1 + debt)

/-- A walk over data whose check and visitor leave the store as it is, and that
    takes up the siblings one by one. -/
def Passive (walker : Walker σ) (store : Store) : Prop :=
  ∀ datum place lineage world directive later, Datum.StandsAt store datum place.node →
    world.store = store → walker.one place lineage world = .ok directive later →
      later.store = store ∧ directive.index = .null

section Debt

variable {walker : Walker σ} {store : Store} {members : List Datum}

theorem tolls_remaining {n : Nat} (hn : n < members.length) :
    Datum.tolls (remaining walker.reverse members n) =
      members[n].toll + Datum.tolls (remaining walker.reverse members (n + walker.stride)) := by
  have hafter : ((n : Int) + 1).toNat = n + 1 := by omega
  have hbefore : ((n : Int) + -1 + 1).toNat = n := by omega
  unfold remaining stride
  cases walker.reverse with
  | false =>
    simp only [Bool.false_eq_true, if_false, Int.toNat_natCast, hafter]
    rw [List.drop_eq_getElem_cons hn, Datum.tolls]
  | true =>
    simp only [if_true, hafter, hbefore]
    rw [List.take_succ_eq_append_getElem hn, Datum.tolls_append]
    simp only [Datum.tolls]
    omega

/-- Where a walk takes up the children of a node, all members are to come. -/
theorem remaining_start {α : Type} {members : List α} {children inside : Value}
    (hlength : members.length = ((store.members? children).getD []).length)
    (hstart : walker.startOf store children = .ok inside) :
    ∃ place : Int, inside = .int place ∧ remaining walker.reverse members place = members := by
  unfold startOf at hstart
  unfold remaining
  cases hreverse : walker.reverse with
  | false =>
    simp only [hreverse, Bool.false_eq_true, if_false, pure, Except.pure] at hstart
    cases hstart
    exact ⟨0, rfl, rfl⟩
  | true =>
    simp only [hreverse, if_true, bind, Except.bind] at hstart
    cases hsize : store.lengthOf children with
    | error fault =>
      rw [hsize] at hstart
      cases hstart
    | ok length =>
      rw [hsize] at hstart
      cases hstart
      refine ⟨_, rfl, ?_⟩
      rw [if_pos rfl]
      apply List.take_of_length_le
      cases hmembers : store.members? children with
      | none => simp [hlength, hmembers]
      | some found =>
        have hfound : length = found.length := by
          simpa [Store.lengthOf, hmembers, pure, Except.pure] using hsize.symm
        rw [hlength, hmembers, Option.getD_some]
        omega

/-- A node that is entered owes less than its toll. -/
theorem Owes.enter {node inside : Value} {datum : Datum} {outer : List Frame} {debt : Nat}
    (houter : Owes store walker.reverse outer debt) (hstands : datum.StandsAt store node)
    (hchildren : store.children node ≠ .null)
    (hstart : walker.startOf store (store.children node) = .ok inside) :
    ∃ less, less < datum.toll + debt ∧
      Owes store walker.reverse (⟨node, inside⟩ :: outer) less := by
  have hmembers := hstands.children.members
  have hparent : datum.children ≠ .null := by
    intro hnull
    have hvalue := hstands.children
    rw [hnull] at hvalue
    exact hchildren hvalue.cases
  obtain ⟨place, rfl, hall⟩ := remaining_start hmembers.length_eq hstart
  refine ⟨_, ?_, .cons hmembers hstands.children.ne_table houter⟩
  have htoll := Datum.tolls_children hparent
  rw [hall]
  omega

/-- To move past a child pays its toll. -/
theorem Owes.pays {frame : Frame} {outer : List Frame} {child : Value} {debt : Nat}
    (howes : Owes store walker.reverse (frame :: outer) debt)
    (hchild : store.childAt (store.children frame.parent) frame.cursor = .ok (some child)) :
    ∃ (datum : Datum) (less : Nat), debt = datum.toll + less ∧ datum.StandsAt store child ∧
      Owes store walker.reverse (⟨frame.parent, frame.cursor.moved walker.stride⟩ :: outer) less := by
  cases howes with
  | @cons parent place _ members debt hmembers hplain houter =>
    obtain ⟨values, hvalues, n, hplace, hn, hvalue⟩ := Store.members?_of_childAt hplain hchild
    obtain rfl : place = n := Option.some.inj hplace
    rw [hvalues] at hmembers
    have hm : n < members.length := by
      rw [hmembers.length_eq]
      exact hn
    have hpaid := @tolls_remaining _ walker members n hm
    refine ⟨members[n], _, ?_, ?_, .cons (by rw [hvalues]; exact hmembers) hplain houter⟩
    · rw [hpaid]
      omega
    · rw [← hvalue]
      exact hmembers.get hm hn

/-- Every turn of a passive walk that goes on pays at least one of what the
    frames owe. -/
theorem Owes.step (hpassive : walker.Passive store) {frames : List Frame} {lineage : List Value}
    {walked debt : Nat} {world later : World σ} {next : Descent}
    (howes : Owes store walker.reverse frames debt) (hstore : world.store = store)
    (hstep : walker.step ⟨frames, lineage, walked⟩ world = .ok (.more next) later) :
    later.store = store ∧ ∃ less, less < debt ∧ Owes store walker.reverse next.frames less := by
  subst hstore
  cases goesOn_of_step hstep with
  | leaves hchild =>
    cases howes with
    | @cons parent place _ members debt hmembers hplain houter =>
      exact ⟨rfl, debt, by omega, houter⟩
  | passes hchild =>
    obtain ⟨datum, less, rfl, _, hmoved⟩ := howes.pays hchild
    have htoll := datum.toll_pos
    exact ⟨rfl, less, by omega, hmoved⟩
  | enters hnode hchild hone hexit henter =>
    obtain ⟨datum, less, rfl, hstands, hmoved⟩ := howes.pays hchild
    have htoll := datum.toll_pos
    obtain ⟨hkept, hindex⟩ := hpassive _ _ _ _ _ _ hstands rfl hone
    rw [hindex, cursorAfter, if_pos rfl] at henter
    obtain ⟨-, rfl | ⟨hchildren, -, inside, hinside, rfl⟩⟩ := enter_cases walker henter
    · exact ⟨hkept, less, by omega, hmoved⟩
    · rw [hkept] at hchildren hinside
      obtain ⟨owed, howed, hentered⟩ := hmoved.enter hstands hchildren hinside
      exact ⟨hkept, owed, by omega, hentered⟩

theorem Owes.run (hpassive : walker.Passive store) {debt fuel : Nat} {descent : Descent}
    {world : World σ} (howes : Owes store walker.reverse descent.frames debt)
    (hstore : world.store = store) (hfuel : debt < fuel) :
    ∃ outcome, walker.run fuel (.more descent) world = some outcome := by
  induction fuel generalizing descent debt world with
  | zero => omega
  | succ fuel ih =>
    rcases hstep : walker.step descent world with ⟨step, later⟩ | ⟨fault, later⟩
    · simp only [Walker.run, hstep]
      cases step with
      | done ending => cases fuel <;> exact ⟨_, rfl⟩
      | more next =>
        obtain ⟨hlater, less, hless, hnext⟩ := howes.step hpassive hstore hstep
        exact ih hnext hlater (by omega)
    · simp only [Walker.run, hstep]
      exact ⟨_, rfl⟩

/-- A passive walk over a datum is over after two turns for each of its parts. -/
theorem Passive.walk_ends (hpassive : walker.Passive store) {datum : Datum} {tree : Value}
    (hstands : datum.StandsAt store tree) {world : World σ} (hstore : world.store = store)
    {fuel : Nat} (hfuel : 2 * datum.weight ≤ fuel) :
    ∃ outcome, walker.walk fuel tree world = some outcome := by
  have hweight := datum.weight_pos
  have htoll := datum.toll_le
  rcases walker.announce_cases tree world with ⟨fault, -, hannounce⟩ | ⟨message, -, hannounce⟩
  · exact ⟨_, walker.walk_announce_fails hannounce fuel⟩
  simp only [walk]
  rcases hone : walker.one { node := tree } [] (world.told message) with
    ⟨directive, later⟩ | ⟨fault, later⟩
  · obtain ⟨hkept, _⟩ := hpassive _ _ _ (world.told message) _ _ hstands hstore hone
    by_cases hexit : directive.action = .action .exit
    · rw [start_exits walker hannounce hone hexit]
      cases fuel <;> exact ⟨_, rfl⟩
    · have hstart := start_enters walker hannounce hone hexit
      simp only [bind, EStateM.bind] at hstart
      by_cases hstay : later.store.children tree = .null ∨ directive.action = .action .skip
      · rw [enter_stays walker _ tree directive later hstay] at hstart
        rw [hstart]
        exact Owes.run hpassive .nil hkept (by omega)
      · rcases hcursor : walker.startOf later.store (later.store.children tree) with
          fault | cursor
        · rw [enter_fails walker _ tree directive later hstay hcursor] at hstart
          rw [hstart]
          exact ⟨_, rfl⟩
        · rw [enter_descends walker _ tree directive later hstay hcursor] at hstart
          rw [hkept] at hcursor hstay
          obtain ⟨less, hless, hinside⟩ := Owes.enter .nil hstands
            (fun hnull => hstay (Or.inl hnull)) hcursor
          rw [hstart]
          exact hinside.run hpassive hkept (by omega)
  · rw [start_fails walker hannounce hone]
    exact ⟨_, rfl⟩

end Debt

end Walker

end Lineage
