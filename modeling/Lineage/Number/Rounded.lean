import Lineage.Number.Shortest

namespace Lineage.Binary64

/-- The decimal of `count` digits that is nearest to a positive number, a half
    going to the even one. -/
def roundedTo (count : Nat) (value : Dyadic) : Decimal :=
  let (num, den) := quotientOf value
  let last := pointPosition num den - count
  let digits :=
    if last ≥ 0 then roundHalfEven num (den * Nat.pow 10 last.toNat)
    else roundHalfEven (num * Nat.pow 10 (-last).toNat) den
  if digitCount digits > count then ⟨digits / 10, last + 1⟩ else ⟨digits, last⟩

/-- A number that is not negative as `places` decimal places have it, counted in
    units of the last of them. -/
def unitsAt (places : Nat) (value : Dyadic) : Nat :=
  let (num, den) := quotientOf value
  roundHalfEven (num * Nat.pow 10 places) den

/-- Digits with zeros before them, so that there are `count` at least. -/
def zeroPadded (count : Nat) (digits : List Char) : List Char :=
  List.replicate (count - digits.length) '0' ++ digits

/-- A whole part and a fraction. The point stands if there is a fraction, or if
    it is kept. -/
def pointed (keepPoint : Bool) (whole fraction : List Char) : String :=
  String.ofList whole ++ (if fraction.isEmpty && !keepPoint then "" else ".") ++
    String.ofList fraction

/-- A number that is not negative with so many decimal places. -/
def fixed (keepPoint : Bool) (places : Nat) (value : Dyadic) : String :=
  let digits := zeroPadded (places + 1) (Nat.toDigits 10 (unitsAt places value))
  let whole := digits.take (digits.length - places)
  pointed keepPoint whole (digits.drop whole.length)

/-- The significant digits of a number that is not negative, and the place of
    the point among them. Zero has its point after the first digit. -/
def significant (count : Nat) (value : Dyadic) : List Char × Int :=
  if value = 0 then (List.replicate count '0', 1)
  else
    let decimal := roundedTo count value
    (Nat.toDigits 10 decimal.digits, decimal.exponent + count)

/-- Digits with the point after the first one, and an exponent. -/
def withExponent (keepPoint : Bool) (digits : List Char) (point : Int) : String :=
  pointed keepPoint (digits.take 1) (digits.drop 1) ++ "e" ++ exponentText (point - 1)

/-- A number that is not negative with an exponent and so many decimal
    places. -/
def scientific (keepPoint : Bool) (places : Nat) (value : Dyadic) : String :=
  let (digits, point) := significant (places + 1) value
  withExponent keepPoint digits point

/-- The digits without the zeros at their end; one digit stays. -/
def withoutTrailingZeros (digits : List Char) : List Char :=
  digits.take 1 ++ ((digits.drop 1).reverse.dropWhile (· == '0')).reverse

/-- A number that is not negative with at most so many significant digits. It
    has an exponent below `10 ^ -4` and where its whole part has more digits.
    Zeros at the end go unless the point is kept. -/
def general (keepPoint : Bool) (count : Nat) (value : Dyadic) : String :=
  let count := max count 1
  let (digits, point) := significant count value
  let shown := if keepPoint then digits else withoutTrailingZeros digits
  if point ≤ -4 || point > count then withExponent keepPoint shown point
  else if point ≤ 0 then pointed keepPoint ['0'] (List.replicate (-point).toNat '0' ++ shown)
  else
    let whole := shown.take point.toNat
    pointed keepPoint (whole ++ List.replicate (point.toNat - whole.length) '0')
      (shown.drop point.toNat)

/-- The double nearest to an integer; it is infinite if that is too large. -/
def ofInt (n : Int) : Binary64 :=
  let magnitude := ofQuotient n.natAbs 1
  if n < 0 then magnitude.neg else magnitude

/-- The largest integer that is not above the number. -/
def floor? (x : Binary64) : Option Int :=
  match x.value? with
  | some .zero => some 0
  | some (.ofOdd n k _) =>
    some (if k ≤ 0 then n * Int.pow 2 (-k).toNat else n.fdiv (Int.pow 2 k.toNat))
  | none => none

/-- The integer that is left when the fraction is dropped. -/
def truncated? (x : Binary64) : Option Int :=
  match x.value? with
  | some .zero => some 0
  | some (.ofOdd n k _) =>
    some (if k ≤ 0 then n * Int.pow 2 (-k).toNat else n.tdiv (Int.pow 2 k.toNat))
  | none => none

end Lineage.Binary64
