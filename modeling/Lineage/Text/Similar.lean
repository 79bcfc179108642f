namespace Lineage.Text

/-- How many characters two texts have in common at their start. -/
def commonStart : List Char → List Char → Nat
  | a :: as, b :: bs => if a == b then commonStart as bs + 1 else 0
  | _, _ => 0

/-- A piece that two texts share: where it stands in each and its length. -/
structure SharedPiece where
  left : Nat
  right : Nat
  length : Nat

/-- The longest piece that two texts share; of several the one that comes first
    in the left text, and then in the right one. -/
def longestShared (as bs : List Char) : SharedPiece :=
  (List.range as.length).foldl (fun best i =>
    (List.range bs.length).foldl (fun best j =>
      let length := commonStart (as.drop i) (bs.drop j)
      if best.length < length then ⟨i, j, length⟩ else best) best) ⟨0, 0, 0⟩

/-- How many characters of two texts match: those of the longest shared piece,
    and those that match before it and after it. -/
def matching : Nat → List Char → List Char → Nat
  | 0, _, _ => 0
  | fuel + 1, as, bs =>
    let piece := longestShared as bs
    if piece.length == 0 then 0
    else
      matching fuel (as.take piece.left) (bs.take piece.right) + piece.length +
        matching fuel (as.drop (piece.left + piece.length)) (bs.drop (piece.right + piece.length))

/-- The share of matching characters in two texts, as a quotient. -/
structure Likeness where
  matched : Nat
  total : Nat

/-- How much two texts have in common. -/
def likeness (a b : String) : Likeness :=
  ⟨2 * matching (a.length + 1) a.toList b.toList, a.length + b.length⟩

/-- Whether one likeness is more than another one. -/
def Likeness.exceeds (a b : Likeness) : Bool :=
  b.matched * a.total < a.matched * b.total

/-- Whether at least six characters in ten match. -/
def Likeness.isClose (a : Likeness) : Bool :=
  6 * a.total ≤ 10 * a.matched

/-- The at most three candidates that are closest to a word, closest first. -/
def closeMatches (word : String) (candidates : List String) : List String :=
  let scored := candidates.filterMap fun candidate =>
    let score := likeness candidate word
    if score.isClose then some (score, candidate) else none
  let ranked := scored.mergeSort fun (s, a) (t, b) => s.exceeds t || (!t.exceeds s && b ≤ a)
  (ranked.take 3).map (·.2)

end Lineage.Text
