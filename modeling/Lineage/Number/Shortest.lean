import Lineage.Number.Binary64

namespace Lineage.Binary64

/-- A positive decimal: `digits * 10 ^ exponent`. -/
structure Decimal where
  digits : Nat
  exponent : Int

/-- The quotient `num / den` of the decimal. -/
def Decimal.quotient (d : Decimal) : Nat × Nat :=
  if d.exponent ≥ 0 then (d.digits * Nat.pow 10 d.exponent.toNat, 1)
  else (d.digits, Nat.pow 10 (-d.exponent).toNat)

/-- Whether the decimal rounds to the given number. -/
def Decimal.readsAs (d : Decimal) (value : Dyadic) : Bool :=
  let (num, den) := d.quotient
  ofQuotient num den == finite value

/-- The decimal without zeros at its end; `fuel` bounds their number. -/
def Decimal.stripped : Nat → Decimal → Decimal
  | 0, d => d
  | fuel + 1, d =>
    if d.digits ≠ 0 && d.digits % 10 == 0 then stripped fuel ⟨d.digits / 10, d.exponent + 1⟩ else d

/-- A positive number as a quotient. -/
def quotientOf : Dyadic → Nat × Nat
  | .zero => (0, 1)
  | .ofOdd n k _ => if k ≤ 0 then (n.toNat * Nat.pow 2 (-k).toNat, 1) else (n.toNat, Nat.pow 2 k.toNat)

/-- The number `p` for which `10 ^ (p - 1) ≤ num / den < 10 ^ p`. -/
def pointPosition (num den : Nat) : Int :=
  let estimate : Int := (digitCount num : Int) - digitCount den
  let below :=
    if estimate ≥ 0 then num < den * Nat.pow 10 estimate.toNat
    else num * Nat.pow 10 (-estimate).toNat < den
  if below then estimate else estimate + 1

/-- The decimal of `count` digits that reads as the number and is nearest to
    it, if one of its two neighbours with that many digits does. -/
def decimalOf? (value : Dyadic) (count : Nat) : Option Decimal :=
  let (num, den) := quotientOf value
  let last := pointPosition num den - count
  let (num, den) :=
    if last ≥ 0 then (num, den * Nat.pow 10 last.toNat)
    else (num * Nat.pow 10 (-last).toNat, den)
  let low : Decimal := ⟨num / den, last⟩
  let high : Decimal := ⟨num / den + 1, last⟩
  match low.readsAs value, high.readsAs value with
  | true, true => some (if roundHalfEven num den == low.digits then low else high)
  | true, false => some low
  | false, true => some high
  | false, false => none

/-- The fewest digits that read back as the positive number, and of those the
    nearest to it. Seventeen always suffice. -/
def shortest (value : Dyadic) : Decimal :=
  let found := ((List.range 17).map (· + 1)).findSome? (decimalOf? value)
  (found.getD ⟨0, 0⟩).stripped 20

/-- The two-digit form of an exponent, with its sign. -/
def exponentText (exponent : Int) : String :=
  let digits := toString exponent.natAbs
  (if exponent < 0 then "-" else "+") ++ (if digits.length < 2 then "0" ++ digits else digits)

/-- The decimal in writing: with a point for magnitudes from `10 ^ -4` up to
    `10 ^ 16`, with an exponent outside of them. -/
def Decimal.render (d : Decimal) : String :=
  let digits := (toString d.digits).toList
  let point := d.exponent + digits.length
  if -4 < point && point ≤ 16 then
    if point ≤ 0 then
      "0." ++ String.ofList (List.replicate (-point).toNat '0' ++ digits)
    else
      let whole := digits.take point.toNat
      let fraction := digits.drop point.toNat
      String.ofList (whole ++ List.replicate (point.toNat - whole.length) '0') ++ "." ++
        (if fraction.isEmpty then "0" else String.ofList fraction)
  else
    let fraction := digits.drop 1
    String.ofList (digits.take 1) ++ (if fraction.isEmpty then "" else "." ++ String.ofList fraction) ++
      "e" ++ exponentText (point - 1)

/-- A number in writing: the fewest digits that read back as it. -/
def render : Binary64 → String
  | nan => "nan"
  | infinite negative => if negative then "-inf" else "inf"
  | negZero => "-0.0"
  | finite value =>
    if value = 0 then "0.0"
    else if value < 0 then "-" ++ (shortest (-value)).render
    else (shortest value).render

end Lineage.Binary64
