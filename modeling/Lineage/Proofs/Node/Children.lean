import Lineage.Children

namespace Lineage.Store

section List

variable {store : Store} {children : Value} {items : List Value}
  (hlist : store.cell? children = some (.list items))

include hlist

theorem ne_null_of_list : children ≠ .null := by
  rintro rfl
  simp [cell?] at hlist

theorem members?_list : store.members? children = some items := by
  cases children with
  | scalar s => simp [cell?] at hlist
  | cell ref => simp [members?, hlist]
  | function id => simp [cell?] at hlist

theorem lengthOf_list : store.lengthOf children = .ok items.length := by
  simp [lengthOf, members?_list hlist, pure, Except.pure]

/-- The child at a place inside a list is the item there. -/
theorem childAt_list {n : Nat} (hinside : n < items.length) :
    store.childAt children (.int n) = .ok (some items[n]) := by
  simp [childAt, ne_null_of_list hlist, isFromStart, Value.position?, Value.isBelow,
    lengthOf_list hlist, memberAt, members?_list hlist, hinside, bind, Except.bind, pure,
    Except.pure]

/-- There is no child at a place outside of a list. -/
theorem childAt_list_outside {place : Int} (houtside : ¬ (0 ≤ place ∧ place < items.length)) :
    store.childAt children (.int place) = .ok none := by
  by_cases hfrom : 0 ≤ place
  · have hbeyond : ¬ place < items.length := fun hbelow => houtside ⟨hfrom, hbelow⟩
    simp [childAt, ne_null_of_list hlist, isFromStart, Value.position?, Value.isBelow,
      lengthOf_list hlist, hfrom, hbeyond, bind, Except.bind, pure, Except.pure]
  · simp [childAt, ne_null_of_list hlist, isFromStart, Value.position?, hfrom, bind, Except.bind,
      pure, Except.pure]

end List

/-- The child after some others is found where they end. -/
theorem childAt_middle {store : Store} {children item : Value} {before after : List Value}
    (hlist : store.cell? children = some (.list (before ++ item :: after))) :
    store.childAt children (.int before.length) = .ok (some item) := by
  have hinside : before.length < (before ++ item :: after).length := by simp
  rw [childAt_list hlist hinside]
  simp

/-- A child is found only where the cursor is inside the children. -/
theorem childAt_eq_some {store : Store} {children cursor child : Value}
    (hchild : store.childAt children cursor = .ok (some child)) :
    store.isFromStart cursor = .ok true ∧
      ∃ length, store.lengthOf children = .ok length ∧ cursor.isBelow length = true ∧
        store.memberAt children cursor = .ok child := by
  unfold Store.childAt at hchild
  split at hchild
  · cases hchild
  · rcases hfrom : store.isFromStart cursor with fault | fromStart
    · simp [hfrom, bind, Except.bind] at hchild
    · cases fromStart with
      | false => simp [hfrom, bind, Except.bind, pure, Except.pure] at hchild
      | true =>
        rcases hlength : store.lengthOf children with fault | length
        · simp [hfrom, hlength, bind, Except.bind] at hchild
        · cases hbelow : cursor.isBelow length with
          | false => simp [hfrom, hlength, hbelow, bind, Except.bind, pure, Except.pure] at hchild
          | true =>
            rcases hmember : store.memberAt children cursor with fault | member
            · simp [hfrom, hlength, hbelow, hmember, bind, Except.bind] at hchild
            · simp [hfrom, hlength, hbelow, hmember, bind, Except.bind, pure, Except.pure] at hchild
              rw [hchild]
              exact ⟨rfl, length, rfl, hbelow, rfl⟩

/-- A child that a cursor points to is a member of the children at that place. -/
theorem memberAt_of_childAt {store : Store} {children cursor child : Value}
    (hchild : store.childAt children cursor = .ok (some child)) :
    store.memberAt children cursor = .ok child := by
  obtain ⟨_, _, _, _, hmember⟩ := childAt_eq_some hchild
  exact hmember

/-- A cursor that points to a child is a whole number inside the members, or a key
    of the children. -/
theorem child_cases {store : Store} {children cursor child : Value}
    (hchild : store.childAt children cursor = .ok (some child)) :
    (∃ members, store.members? children = some members ∧
      ∃ n : Nat, cursor.position? = some (n : Int) ∧
        ∃ hn : n < members.length, members[n] = child) ∨
    ∃ entries key, store.cell? children = some (.table entries) ∧ cursor = .scalar key ∧
      entries.value? key = some child := by
  obtain ⟨hfrom, length, hlength, hbelow, hmember⟩ := childAt_eq_some hchild
  unfold memberAt at hmember
  split at hmember
  · next members place hmembers hplace =>
    have hnumber : ∀ x, cursor ≠ .float x := by
      rintro x rfl
      cases hplace
    have hsize : length = members.length := by
      simpa [lengthOf, hmembers, pure, Except.pure] using hlength.symm
    have hstart : 0 ≤ place := by
      simpa [isFromStart, hplace, hnumber, pure, Except.pure] using hfrom
    have hend : place < length := by
      simpa [Value.isBelow, hplace, hnumber] using hbelow
    obtain ⟨n, rfl⟩ := Int.eq_ofNat_of_zero_le hstart
    have hn : n < members.length := by omega
    refine .inl ⟨members, hmembers, n, hplace, hn, ?_⟩
    simpa [hn, pure, Except.pure] using hmember
  · cases hmember
  · split at hmember
    · next entries key hentries =>
      split at hmember
      · next member hvalue => exact .inr ⟨entries, key, hentries, rfl, by rw [hvalue, Except.ok.inj hmember]⟩
      · cases hmember
    · cases hmember
    · cases hmember

/-- A cursor that points to a child of a sequence is a whole number inside the
    members. -/
theorem members?_of_childAt {store : Store} {children cursor child : Value}
    (hplain : ∀ entries, store.cell? children ≠ some (.table entries))
    (hchild : store.childAt children cursor = .ok (some child)) :
    ∃ members, store.members? children = some members ∧
      ∃ n : Nat, cursor.position? = some (n : Int) ∧
        ∃ hn : n < members.length, members[n] = child := by
  rcases child_cases hchild with hinside | ⟨entries, _, htable, _⟩
  · exact hinside
  · exact (hplain entries htable).elim

theorem inside_of_childAt_list {store : Store} {children cursor child : Value} {items : List Value}
    (hlist : store.cell? children = some (.list items))
    (hchild : store.childAt children cursor = .ok (some child)) :
    ∃ n : Nat, cursor.position? = some (n : Int) ∧ ∃ hn : n < items.length, items[n] = child := by
  have hplain : ∀ entries, store.cell? children ≠ some (.table entries) := by
    intro entries htable
    cases hlist.symm.trans htable
  obtain ⟨members, hmembers, hinside⟩ := members?_of_childAt hplain hchild
  cases (members?_list hlist).symm.trans hmembers
  exact hinside

end Lineage.Store
