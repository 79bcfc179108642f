namespace Lineage.Text

/-- The characters between the start of a style sequence and its letter. -/
def isStyleParameter (c : Char) : Bool :=
  c == ';' || c == '?' || c.isDigit

/-- What follows a style sequence at the start of the characters: an escape, an
    opening bracket, parameters and a letter. -/
def afterStyle? : List Char → Option (List Char)
  | '\x1b' :: '[' :: rest =>
    match rest.dropWhile isStyleParameter with
    | c :: after => if c.isAlpha then some after else none
    | [] => none
  | _ => none

/-- What is left after dropping characters is no longer. -/
theorem length_dropWhile_le (p : Char → Bool) (cs : List Char) :
    (cs.dropWhile p).length ≤ cs.length :=
  (List.dropWhile_suffix p).length_le

/-- A style sequence takes up characters. -/
theorem length_lt_of_afterStyle? {cs rest : List Char} (hstyle : afterStyle? cs = some rest) :
    rest.length < cs.length := by
  unfold afterStyle? at hstyle
  split at hstyle
  next tail =>
    have hle := length_dropWhile_le isStyleParameter tail
    split at hstyle
    next c after heq =>
      split at hstyle
      · cases hstyle
        simp only [heq, List.length_cons] at hle ⊢
        omega
      · cases hstyle
    next => cases hstyle
  next => cases hstyle

/-- The characters without their style sequences. -/
def withoutStyles (cs : List Char) : List Char :=
  match hstyle : afterStyle? cs with
  | some rest =>
    have := length_lt_of_afterStyle? hstyle
    withoutStyles rest
  | none =>
    match cs with
    | [] => []
    | c :: rest => c :: withoutStyles rest
termination_by cs.length

/-- A text as it is written where styles have no meaning. -/
def unstyled (s : String) : String :=
  String.ofList (withoutStyles s.toList)

end Lineage.Text
