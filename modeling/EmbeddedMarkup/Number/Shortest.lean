import EmbeddedMarkup.Number.Double

/-!
# The shortest decimal that reads back

The numbers that are read as one double form an interval around it: they reach half way to the
double below and half way to the double above, and the ends belong to it when the mantissa is
even.  Of the decimals in this interval, the shortest is the one with the fewest digits, and
among those the one nearest to the double.

The double is compared with decimals by cross multiplication, so nothing is rounded.
-/

namespace EmbeddedMarkup

/-- Which of two decimals that are equally near to a double is taken. -/
inductive Tie where
  /-- The larger one. -/
  | up
  /-- The one whose last digit is even. -/
  | toEven
deriving DecidableEq, Repr

/-- How `a * 10 ^ i` compares with `n * 2 ^ j`. -/
def compareScaled (a : Nat) (i : Int) (n : Nat) (j : Int) : Ordering :=
  compare (a * Nat.pow 10 i.toNat * Nat.pow 2 (-j).toNat)
    (n * Nat.pow 2 j.toNat * Nat.pow 10 (-i).toNat)

/-- The gap below a power of two is half the gap above it, except at the smallest doubles. -/
def hasNarrowGapBelow (mantissa : Nat) (exponent : Int) : Bool :=
  2 * mantissa == Double.mantissaBound && Double.leastExponent < exponent

/-- The decimal lies in the interval of numbers that are read as `mantissa * 2 ^ exponent`. -/
def readsBack (mantissa : Nat) (exponent : Int) (d : Decimal) : Bool :=
  let quarters := 4 * mantissa
  let low := if hasNarrowGapBelow mantissa exponent then quarters - 1 else quarters - 2
  let fromLow := compareScaled d.digits d.exponent low (exponent - 2)
  let fromHigh := compareScaled d.digits d.exponent (quarters + 2) (exponent - 2)
  let withEnds := mantissa % 2 == 0
  (fromLow == .gt || (withEnds && fromLow == .eq)) &&
    (fromHigh == .lt || (withEnds && fromHigh == .eq))

/--
The least `k` such that `mantissa * 2 ^ exponent` is below `10 ^ k`, searched from `low` in at
most `steps` steps.
-/
def decimalPlaces (mantissa : Nat) (exponent : Int) (low : Int) : (steps : Nat) → Int
  | 0 => low
  | steps + 1 =>
      if compareScaled 1 low mantissa exponent == .gt then low
      else decimalPlaces mantissa exponent (low + 1) steps

/-- The greatest point of the grid `10 ^ place` that is not above the double. -/
def gridBelow (mantissa : Nat) (exponent place : Int) : Nat :=
  (mantissa * Nat.pow 2 exponent.toNat * Nat.pow 10 (-place).toNat) /
    (Nat.pow 10 place.toNat * Nat.pow 2 (-exponent).toNat)

/-- The neighbour of the double on the grid `10 ^ place` that reads back, if one does. -/
def onGrid? (tie : Tie) (mantissa : Nat) (exponent place : Int) : Option Decimal :=
  let digits := gridBelow mantissa exponent place
  let below : Decimal := ⟨digits, place⟩
  let above : Decimal := ⟨digits + 1, place⟩
  match readsBack mantissa exponent below, readsBack mantissa exponent above with
  | true, false => some below
  | false, true => some above
  | false, false => none
  | true, true =>
      match compareScaled (2 * digits + 1) place (2 * mantissa) exponent with
      | .gt => some below
      | .lt => some above
      | .eq =>
          match tie with
          | .up => some above
          | .toEven => if digits % 2 = 0 then some below else some above

/-- Move the zeros at the end of the digits into the exponent. -/
def Decimal.withoutTrailingZeros (d : Decimal) : (steps : Nat) → Decimal
  | 0 => d
  | steps + 1 =>
      if d.digits ≠ 0 ∧ d.digits % 10 = 0 then
        Decimal.withoutTrailingZeros ⟨d.digits / 10, d.exponent + 1⟩ steps
      else d

/--
The shortest decimal that reads back as `mantissa * 2 ^ exponent`, which is not zero.  Seventeen
digits are enough for every double; should none fit, the exact value stands in.
-/
def shortest (tie : Tie) (mantissa : Nat) (exponent : Int) : Decimal :=
  let bits : Int := mantissa.log2 + exponent
  let places := decimalPlaces mantissa exponent (bits * 30103 / 100000 - 1) 4
  match (List.range' 1 17).findSome? fun (count : Nat) =>
      onGrid? tie mantissa exponent (places - count) with
  | some d => d.withoutTrailingZeros 17
  | none =>
      ⟨mantissa * Nat.pow 2 exponent.toNat * Nat.pow 5 (-exponent).toNat, min exponent 0⟩

end EmbeddedMarkup
