/-!
# Doubles

A double is a natural number of at most 53 binary digits times a power of two, or infinity.
Literals have no sign, so no double here is negative.  A decimal is read as the double nearest
to it; of two that are equally near, the one with an even mantissa is taken.  All arithmetic is
exact, on natural numbers.
-/

namespace EmbeddedMarkup

/-- A double that is not negative. -/
inductive Double where
  /-- The number `mantissa * 2 ^ exponent`. -/
  | finite (mantissa : Nat) (exponent : Int)
  /-- Larger than every number. -/
  | infinite
deriving DecidableEq, Repr

/-- The number `digits * 10 ^ exponent`. -/
structure Decimal where
  /-- The digits, as one natural number. -/
  digits : Nat
  /-- How far they are shifted. -/
  exponent : Int
deriving DecidableEq, Repr

/-- The quotient of two natural numbers, the second of which is not zero. -/
structure Ratio where
  numerator : Nat
  denominator : Nat

/-- A decimal as a quotient. -/
def Decimal.ratio (d : Decimal) : Ratio :=
  ⟨d.digits * Nat.pow 10 d.exponent.toNat, Nat.pow 10 (-d.exponent).toNat⟩

namespace Ratio

/-- The quotient divided by `2 ^ exponent`. -/
def unscale (r : Ratio) (exponent : Int) : Ratio :=
  ⟨r.numerator * Nat.pow 2 (-exponent).toNat, r.denominator * Nat.pow 2 exponent.toNat⟩

/-- The greatest natural number that is not above the quotient. -/
def floor (r : Ratio) : Nat :=
  r.numerator / r.denominator

/-- The natural number nearest to the quotient; of two, the even one. -/
def round (r : Ratio) : Nat :=
  let whole := r.floor
  let twice := 2 * (r.numerator % r.denominator)
  if twice < r.denominator then whole
  else if r.denominator < twice then whole + 1
  else whole + whole % 2

end Ratio

namespace Double

/-- The exponent of the doubles next to zero. -/
def leastExponent : Int := -1074

/-- The exponent of the largest doubles. -/
def greatestExponent : Int := 971

/-- Mantissas are below this. -/
def mantissaBound : Nat := Nat.pow 2 53

/-- Zero. -/
def zero : Double :=
  .finite 0 leastExponent

/--
The exponent of the double nearest to a quotient: the least for which the mantissa, before it
is rounded, stays below its bound.  The two binary logarithms miss it by one at most.
-/
def exponentFor (r : Ratio) : Int :=
  let low := max leastExponent
    ((r.numerator.log2 : Int) - (r.denominator.log2 : Int) - 53)
  if mantissaBound ≤ (r.unscale low).floor then low + 1 else low

/-- The double nearest to a quotient. -/
def ofRatio (r : Ratio) : Double :=
  let exponent := exponentFor r
  let mantissa := (r.unscale exponent).round
  let (mantissa, exponent) :=
    if mantissa = mantissaBound then (mantissaBound / 2, exponent + 1) else (mantissa, exponent)
  if greatestExponent < exponent then .infinite else .finite mantissa exponent

/-- The number of decimal digits of a natural number. -/
def decimalLength (n : Nat) : Nat :=
  (Nat.toDigits 10 n).length

/--
The double nearest to a decimal.  Decimals from `10 ^ 310` on are infinite and those below
`10 ^ (-330)` are zero, which is decided before any large power is computed.
-/
def ofDecimal (d : Decimal) : Double :=
  let magnitude := d.exponent + decimalLength d.digits
  if d.digits = 0 ∨ magnitude < -330 then zero
  else if 311 < magnitude then .infinite
  else ofRatio d.ratio

end Double
end EmbeddedMarkup
