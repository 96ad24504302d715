import EmbeddedMarkup.Number.Shortest

/-!
# Notations for doubles

A double is written with its shortest digits.  Two notations lay them out: the plain one, which
never uses an exponent, and the one of JSON numbers, which does so for very large and very small
numbers and always shows that the number is not an integer.
-/

namespace EmbeddedMarkup

/-- The digits of a natural number. -/
def decimalDigits (n : Nat) : List Char :=
  Nat.toDigits 10 n

/-- As many zeros as asked for. -/
def zeros (count : Nat) : List Char :=
  List.replicate count '0'

/--
Digits with a decimal point, which stands behind the first `point` of them.  Zeros fill the
places that the digits leave free, and `whole` is put behind a number without a fraction.
-/
def positional (digits : List Char) (point : Int) (whole : List Char) : List Char :=
  if point ≤ 0 then '0' :: '.' :: zeros (-point).toNat ++ digits
  else if digits.length ≤ point.toNat then digits ++ zeros (point.toNat - digits.length) ++ whole
  else digits.take point.toNat ++ '.' :: digits.drop point.toNat

/-- Digits with a decimal point behind the first, and the exponent that this point needs. -/
def scientific (digits : List Char) (point : Int) : List Char :=
  let mantissa := match digits with
    | [] => []
    | [digit] => [digit]
    | digit :: fraction => digit :: '.' :: fraction
  let exponent := point - 1
  mantissa ++ 'e' :: (if 0 ≤ exponent then '+' else '-') :: decimalDigits exponent.natAbs

namespace Double

/--
Plain notation: no exponent, and no fraction where there is none.  Of two shortest decimals that
are equally near the larger is written.
-/
def plainText : Double → String
  | .infinite => "inf"
  | .finite 0 _ => "0"
  | .finite mantissa exponent =>
      let d := shortest .up mantissa exponent
      let digits := decimalDigits d.digits
      String.ofList (positional digits (digits.length + d.exponent) [])

/-- JSON numbers below `10 ^ 16` and from `10 ^ (-5)` on are written without an exponent. -/
def isPositionalInJson (point : Int) : Bool :=
  -5 < point && point ≤ 16

/--
The notation of JSON numbers.  Of two shortest decimals that are equally near the one with an
even last digit is written.  Infinity is no JSON number.
-/
def jsonText? : Double → Option String
  | .infinite => none
  | .finite 0 _ => some "0.0"
  | .finite mantissa exponent =>
      let d := shortest .toEven mantissa exponent
      let digits := decimalDigits d.digits
      let point : Int := digits.length + d.exponent
      some (String.ofList
        (if isPositionalInJson point then positional digits point ['.', '0']
        else scientific digits point))

end Double
end EmbeddedMarkup
