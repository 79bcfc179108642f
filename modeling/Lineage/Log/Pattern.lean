import Lineage.Text.Digit
import Lineage.Text.Word

namespace Lineage.Log

/-- A width or a precision: a number in the pattern, or the argument itself. -/
inductive Extent where
  | fixed (n : Nat)
  | argument
  deriving DecidableEq, Repr

/-- The flags of a conversion: flushed left, signed, with a blank for a sign, in
    the other form, filled up with zeros. -/
structure Flags where
  left : Bool
  signed : Bool
  blank : Bool
  alternate : Bool
  zeros : Bool
  deriving DecidableEq, Repr

/-- A place in a pattern where an argument is written: the name of the field
    that becomes the argument, if one is named, the form, and the letter with its
    position. A letter may be missing at the end of the pattern. -/
structure Conversion where
  name : Option String
  flags : Flags
  width : Option Extent
  precision : Option Extent
  letter : Option Char
  position : Nat
  deriving DecidableEq, Repr

/-- A piece of a pattern. A name that is not closed is the last one. -/
inductive Piece where
  | literal (c : Char)
  | conversion (conversion : Conversion)
  | unclosed
  deriving DecidableEq, Repr

/-- Whether a character is a flag. -/
def isFlag (c : Char) : Bool := "-+ #0".toList.contains c

/-- The flags among characters. -/
def Flags.ofChars (cs : List Char) : Flags where
  left := cs.contains '-'
  signed := cs.contains '+'
  blank := cs.contains ' '
  alternate := cs.contains '#'
  zeros := cs.contains '0'

/-- The characters up to the parenthesis that closes those already open, of
    which there are `depth` besides the first, and what follows it. -/
def closedName? : Nat → List Char → Option (List Char × List Char)
  | _, [] => none
  | 0, ')' :: rest => some ([], rest)
  | depth + 1, ')' :: rest => (closedName? depth rest).map fun (name, after) => (')' :: name, after)
  | depth, '(' :: rest =>
    (closedName? (depth + 1) rest).map fun (name, after) => ('(' :: name, after)
  | depth, c :: rest => (closedName? depth rest).map fun (name, after) => (c :: name, after)

theorem length_le_of_closedName? {depth : Nat} {cs name after : List Char}
    (hname : closedName? depth cs = some (name, after)) : after.length ≤ cs.length := by
  fun_induction closedName? depth cs generalizing name after with
  | case1 => simp at hname
  | case2 rest =>
    simp only [Option.some.injEq, Prod.mk.injEq] at hname
    simp [← hname.2]
  | case3 depth rest ih | case4 depth rest ih | case5 depth c rest _ _ _ ih =>
    obtain ⟨⟨inner, left⟩, hinner, heq⟩ := Option.map_eq_some_iff.1 hname
    simp only [Prod.mk.injEq] at heq
    have hle := ih hinner
    simp only [← heq.2, List.length_cons]
    omega

/-- The name at the start of the characters, in parentheses, and what follows
    it. There is none if the name is not closed. -/
def takeName? : List Char → Option (Option String × List Char)
  | '(' :: rest => (closedName? 0 rest).map fun (name, after) => (some (String.ofList name), after)
  | cs => some (none, cs)

theorem length_le_of_takeName? {cs after : List Char} {name : Option String}
    (hname : takeName? cs = some (name, after)) : after.length ≤ cs.length := by
  unfold takeName? at hname
  split at hname
  · obtain ⟨⟨inner, left⟩, hinner, heq⟩ := Option.map_eq_some_iff.1 hname
    simp only [Prod.mk.injEq] at heq
    have hle := length_le_of_closedName? hinner
    simp only [← heq.2, List.length_cons]
    omega
  · simp only [Option.some.injEq, Prod.mk.injEq] at hname
    simp [hname.2]

/-- The characters of a conversion after its name. -/
structure Conversion.Spelling where
  flags : List Char
  width : List Char
  precision : List Char
  size : List Char
  letter : List Char

/-- The characters of a width or a precision at the start of others. -/
def extentChars : List Char → List Char
  | '*' :: _ => ['*']
  | cs => cs.takeWhile Char.isDigit

/-- The width or precision that is spelled, if one is. -/
def Extent.ofChars? : List Char → Option Extent
  | [] => none
  | '*' :: _ => some .argument
  | digits => some (.fixed (Text.leadingNumber digits))

namespace Conversion.Spelling

/-- Reads the characters of a conversion. A letter for the size of a number may
    stand before the last one. -/
def read (cs : List Char) : Spelling :=
  let flags := cs.takeWhile isFlag
  let cs := cs.drop flags.length
  let width := extentChars cs
  let cs := cs.drop width.length
  let precision :=
    match cs with
    | '.' :: rest => '.' :: extentChars rest
    | _ => []
  let cs := cs.drop precision.length
  let size := (cs.take 1).filter "hlL".toList.contains
  ⟨flags, width, precision, size, (cs.drop size.length).take 1⟩

/-- How many characters a conversion has after its name. -/
def length (spelling : Spelling) : Nat :=
  spelling.flags.length + spelling.width.length + spelling.precision.length +
    spelling.size.length + spelling.letter.length

/-- The conversion that is spelled. A precision without a number is zero. -/
def conversion (spelling : Spelling) (name : Option String) (position : Nat) : Conversion where
  name
  flags := .ofChars spelling.flags
  width := Extent.ofChars? spelling.width
  precision :=
    match spelling.precision with
    | [] => none
    | _ :: extent => some ((Extent.ofChars? extent).getD (.fixed 0))
  letter := spelling.letter.head?
  position

end Conversion.Spelling

/-- How many characters a name takes up, with its parentheses. -/
def nameSize : Option String → Nat
  | some name => name.length + 2
  | none => 0

/-- The pieces of the characters from a position of a pattern on. A doubled
    percent sign stands for a single one. -/
def piecesFrom (position : Nat) : List Char → List Piece
  | [] => []
  | '%' :: '%' :: rest => .literal '%' :: piecesFrom (position + 2) rest
  | '%' :: rest =>
    match _hname : takeName? rest with
    | none => [.unclosed]
    | some (name, after) =>
      let spelling := Conversion.Spelling.read after
      let last := position + nameSize name + spelling.length
      .conversion (spelling.conversion name last) ::
        piecesFrom (last + 1) (after.drop spelling.length)
  | c :: rest => .literal c :: piecesFrom (position + 1) rest
termination_by cs => cs.length
decreasing_by
  · simp only [List.length_cons]
    omega
  · have hle := length_le_of_takeName? _hname
    simp only [List.length_drop, List.length_cons]
    omega
  · simp only [List.length_cons]
    omega

/-- The pieces of a pattern. -/
def pieces (pattern : String) : List Piece :=
  piecesFrom 0 pattern.toList

/-- Whether a letter may end a field, in either case. The letters `i` and `s`
    have further forms. -/
def endsField (c : Char) : Bool :=
  "diouxefgcrsa%".toList.contains c.toLower || "\u0130\u0131\u017f".toList.contains c

/-- The characters after a width or a precision, of digits of any script. -/
def afterExtent : List Char → List Char
  | '*' :: rest => rest
  | cs => cs.dropWhile fun c => (Text.digitValue? c).isSome

/-- Whether characters after a percent sign make up a field: a name of word
    characters in parentheses, flags, a width, a precision and a letter. -/
def isField : List Char → Bool
  | '(' :: rest =>
    let name := rest.takeWhile Text.isWordChar
    match rest.drop name.length with
    | ')' :: rest =>
      let rest := afterExtent (rest.dropWhile isFlag)
      let rest :=
        match rest with
        | '.' :: digits =>
          let after := afterExtent digits
          if after.length < digits.length then after else rest
        | _ => rest
      !name.isEmpty && rest.head?.any endsField
    | _ => false
  | _ => false

/-- Whether there is a field anywhere in a pattern. -/
def hasField : List Char → Bool
  | [] => false
  | c :: rest => (c == '%' && isField rest) || hasField rest

end Lineage.Log
