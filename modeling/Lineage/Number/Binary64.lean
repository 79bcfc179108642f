namespace Lineage

/-- A number of double precision. Finite numbers are kept as the exact dyadic
    fractions they denote, so that comparing two numbers never rounds. -/
inductive Binary64 where
  | nan
  | infinite (negative : Bool)
  | negZero
  | finite (value : Dyadic)
  deriving DecidableEq

namespace Binary64

/-- The quotient rounded to the nearest integer, a half to the even one. -/
def roundHalfEven (num den : Nat) : Nat :=
  let low := num / den
  let twice := 2 * (num % den)
  if twice < den || (twice == den && low % 2 == 0) then low else low + 1

/-- The number `m` for which `2 ^ m ≤ num / den < 2 ^ (m + 1)`. -/
def floorLog2 (num den : Nat) : Int :=
  let estimate : Int := (Nat.log2 num : Int) - Nat.log2 den
  let reached :=
    if estimate ≥ 0 then num ≥ den * Nat.pow 2 estimate.toNat
    else num * Nat.pow 2 (-estimate).toNat ≥ den
  if reached then estimate else estimate - 1

/-- The double nearest to `num / den`, a tie going to the even significand.
    Significands have 53 bits, the last of them never below `2 ^ -1074`, and
    from `2 ^ 1024` on the result is infinite. -/
def ofQuotient (num den : Nat) : Binary64 :=
  if num == 0 then .finite 0
  else
    let unit := max (floorLog2 num den - 52) (-1074)
    let significand :=
      if unit ≥ 0 then roundHalfEven num (den * Nat.pow 2 unit.toNat)
      else roundHalfEven (num * Nat.pow 2 (-unit).toNat) den
    if unit ≥ 971 && significand * Nat.pow 2 (unit - 971).toNat ≥ Nat.pow 2 53 then .infinite false
    else .finite (Dyadic.ofIntWithPrec significand (-unit))

/-- The number with its sign changed. -/
def neg : Binary64 → Binary64
  | nan => nan
  | infinite negative => infinite !negative
  | negZero => finite 0
  | finite value => if value = 0 then negZero else finite (-value)

/-- How many decimal digits `n` is written with. -/
def digitCount (n : Nat) : Nat :=
  (Nat.toDigits 10 n).length

/-- The double nearest to `digits * 10 ^ exponent`. Exponents beyond the
    range of the format are settled without computing the power. -/
def ofDecimal (digits : Nat) (exponent : Int) : Binary64 :=
  let magnitude := exponent + digitCount digits
  if digits == 0 || magnitude < -330 then .finite 0
  else if magnitude > 310 then .infinite false
  else if exponent ≥ 0 then ofQuotient (digits * Nat.pow 10 exponent.toNat) 1
  else ofQuotient digits (Nat.pow 10 (-exponent).toNat)

/-- The exact value, unless the number is not finite. -/
def value? : Binary64 → Option Dyadic
  | negZero => some 0
  | finite value => some value
  | _ => none

/-- The integer that the number is equal to, if there is one. -/
def toInt? (x : Binary64) : Option Int :=
  match x.value? with
  | some .zero => some 0
  | some (.ofOdd n k _) => if k ≤ 0 then some (n * Int.pow 2 (-k).toNat) else none
  | none => none

/-- Whether the number equals neither zero. NaN counts as nonzero. -/
def isNonzero (x : Binary64) : Bool :=
  x.value? != some 0

/-- Whether the integer `n` is at most the number. -/
def intLe (n : Int) : Binary64 → Bool
  | nan => false
  | infinite negative => !negative
  | negZero => n ≤ 0
  | finite value => decide (Dyadic.ofInt n ≤ value)

/-- Whether the number is below the integer `n`. -/
def ltInt (n : Int) : Binary64 → Bool
  | nan => false
  | infinite negative => negative
  | negZero => 0 < n
  | finite value => decide (value < Dyadic.ofInt n)

end Binary64

end Lineage
