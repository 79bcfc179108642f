import Lineage.Proofs.Tree.InStore

namespace Lineage.Walker

/-- The children that a walk has still to deal with at a cursor, in its order,
    each with its index. -/
def ahead (reverse : Bool) (children : List Tree) (cursor : Int) : List (Tree × Nat) :=
  if reverse then (children.zipIdx.take (cursor + 1).toNat).reverse
  else children.zipIdx.drop cursor.toNat

/-- A cursor that has not yet passed the children in its direction. -/
def OnTrack (reverse : Bool) (children : List Tree) (cursor : Int) : Prop :=
  if reverse then cursor < children.length else 0 ≤ cursor

variable {reverse : Bool} {children : List Tree} {cursor : Int}

/-- Inside the children the one at the cursor is next. -/
theorem ahead_cons {n : Nat} (hinside : n < children.length) :
    ahead reverse children n =
      (children[n], n) :: ahead reverse children (n + if reverse then -1 else 1) := by
  cases reverse with
  | false =>
    have hnext : ((n : Int) + 1).toNat = n + 1 := by omega
    have hdrop : children.zipIdx.drop n = (children[n], n) :: children.zipIdx.drop (n + 1) := by
      rw [List.drop_eq_getElem_cons (by simpa), List.getElem_zipIdx, Nat.zero_add]
    simp only [ahead, Bool.false_eq_true, if_false, hnext, Int.toNat_natCast, hdrop]
  | true =>
    have hnext : ((n : Int) + 1).toNat = n + 1 := by omega
    have hback : ((n : Int) + -1 + 1).toNat = n := by omega
    have htake : children.zipIdx.take (n + 1) = children.zipIdx.take n ++ [(children[n], n)] := by
      rw [List.take_succ_eq_append_getElem (by simpa), List.getElem_zipIdx, Nat.zero_add]
    simp only [ahead, if_true, hnext, hback, htake, List.reverse_append, List.reverse_cons,
      List.reverse_nil, List.nil_append, List.singleton_append]

/-- A cursor on track that has children ahead of it is inside them. -/
theorem inside_of_ahead_cons {pair : Tree × Nat} {rest : List (Tree × Nat)}
    (htrack : OnTrack reverse children cursor)
    (hahead : ahead reverse children cursor = pair :: rest) :
    0 ≤ cursor ∧ cursor < children.length := by
  cases reverse with
  | false =>
    simp only [OnTrack, ahead, Bool.false_eq_true, if_false] at htrack hahead
    have hlength := congrArg List.length hahead
    simp at hlength
    omega
  | true =>
    simp only [OnTrack, ahead, if_true] at htrack hahead
    have hlength := congrArg List.length hahead
    simp at hlength
    omega

theorem onTrack_start :
    OnTrack reverse children (if reverse then (children.length : Int) - 1 else 0) := by
  cases reverse with
  | false => exact Int.le_refl 0
  | true => exact Int.sub_one_lt_of_le (Int.le_refl _)

theorem onTrack_next {n : Nat} (hinside : n < children.length) :
    OnTrack reverse children (n + if reverse then -1 else 1) := by
  cases reverse with
  | false => exact Int.le_add_one (Int.natCast_nonneg n)
  | true =>
    show (n : Int) + -1 < children.length
    omega

/-- Where a walk takes up the children of a node it has all of them ahead. -/
theorem ahead_start :
    ahead reverse children (if reverse then (children.length : Int) - 1 else 0) =
      if reverse then children.zipIdx.reverse else children.zipIdx := by
  cases reverse with
  | false => simp [ahead]
  | true => simp [ahead, List.take_of_length_le]

theorem length_ahead_start :
    (ahead reverse children
      (if reverse then (children.length : Int) - 1 else 0)).length = children.length := by
  rw [ahead_start]
  split <;> simp

/-- The nodes of several trees are those of each, in the order of the walk. -/
theorem spotsOfAll_eq_flatMap (prune : Spot → Bool) (path : List Nat) (parent : Value)
    (lineage : List Value) (first : Nat) (children : List Tree) :
    Tree.spotsOfAll prune reverse path parent lineage first children =
      (if reverse then (children.zipIdx first).reverse else children.zipIdx first).flatMap
        fun pair => pair.1.spotsUnless prune reverse (pair.2 :: path) (.int pair.2) parent
          lineage := by
  induction children generalizing first with
  | nil => simp [Tree.spotsOfAll]
  | cons child rest ih =>
    rw [Tree.spotsOfAll, ih]
    cases reverse with
    | false => simp
    | true => simp

/-- The nodes below a child are among those below all children. -/
theorem mem_spotsOfAll_of_getElem {prune : Spot → Bool} {path : List Nat} {parent : Value}
    {lineage : List Value} {n : Nat} (hn : n < children.length) {spot : Spot}
    (hspot : spot ∈
      children[n].spotsUnless prune reverse (n :: path) (.int n) parent lineage) :
    spot ∈ Tree.spotsOfAll prune reverse path parent lineage 0 children := by
  have hmem : (children[n], n) ∈ children.zipIdx := by
    rw [List.mem_iff_getElem]
    exact ⟨n, by simpa using hn, by simp⟩
  rw [spotsOfAll_eq_flatMap, List.mem_flatMap]
  refine ⟨(children[n], n), ?_, hspot⟩
  split
  · exact List.mem_reverse.mpr hmem
  · exact hmem

end Lineage.Walker
