import EmbeddedMarkup.Number.Double
import EmbeddedMarkup.Text.Character

/-!
# Numerals

A numeral is read off the characters ahead as its parts: a run of digits, a fraction and an
exponent.  Digits may be separated by `_`, but those of an exponent may not.
-/

namespace EmbeddedMarkup

/-- The largest integer literal. -/
def greatestInt : Nat := Nat.pow 2 63 - 1

/-- The value of a digit, of base sixteen or less. -/
def digitValue (c : Char) : Nat :=
  if c.isDigit then c.toNat - '0'.toNat
  else if 'a' ≤ c then c.toNat - 'a'.toNat + 10
  else c.toNat - 'A'.toNat + 10

/-- The value of a run of digits. -/
def digitsValue (base : Nat) (digits : List Char) : Nat :=
  digits.foldl (fun value c => value * base + digitValue c) 0

/-- A run of digits without its separators. -/
def withoutSeparators (run : List Char) : List Char :=
  run.filter (· != '_')

/-- The exponent of a numeral. -/
structure ExponentPart where
  /-- The character that starts it. -/
  marker : Char
  /-- Its sign, if it has one. -/
  sign : Option Char
  /-- Its digits. -/
  digits : List Char

namespace ExponentPart

/-- An exponent starts with `e` and has at least one digit; otherwise there is none. -/
def read? : List Char → Option ExponentPart
  | [] => none
  | marker :: rest =>
      if marker = 'e' ∨ marker = 'E' then
        let sign := rest.head?.filter fun c => c == '+' || c == '-'
        let digits := (rest.drop sign.toList.length).takeWhile Char.isDigit
        if digits.isEmpty then none else some ⟨marker, sign, digits⟩
      else none

/-- How an exponent is written. -/
def text (part : ExponentPart) : List Char :=
  part.marker :: (part.sign.toList ++ part.digits)

/-- The value of an exponent. -/
def value (part : ExponentPart) : Int :=
  let magnitude : Int := digitsValue 10 part.digits
  if part.sign = some '-' then -magnitude else magnitude

end ExponentPart

/--
The fraction of a numeral, without its point.  A point in front of another point belongs to an
ellipsis.
-/
def readFraction? : List Char → Option (List Char)
  | '.' :: rest =>
      if rest.head? = some '.' then none else some (rest.takeWhile isDecimalChar)
  | _ => none

/-- A decimal numeral. -/
structure Numeral where
  /-- The digits and separators in front of the point. -/
  whole : List Char
  /-- The digits and separators behind the point, if there is a point. -/
  fraction : Option (List Char)
  /-- The exponent, if there is one. -/
  exponent : Option ExponentPart

namespace Numeral

/-- How the part of a numeral in front of its exponent is written. -/
def mantissaText (whole : List Char) : Option (List Char) → List Char
  | none => whole
  | some fraction => whole ++ '.' :: fraction

/-- The longest numeral that the characters ahead start with. -/
def read (cs : List Char) : Numeral :=
  let whole := cs.takeWhile isDecimalChar
  let fraction := readFraction? (cs.drop whole.length)
  { whole := whole
    fraction := fraction
    exponent := ExponentPart.read? (cs.drop (mantissaText whole fraction).length) }

/-- How a numeral is written. -/
def text (numeral : Numeral) : List Char :=
  mantissaText numeral.whole numeral.fraction ++
    (numeral.exponent.map ExponentPart.text).getD []

/-- A numeral with neither a point nor an exponent. -/
def isWhole (numeral : Numeral) : Bool :=
  numeral.fraction.isNone && numeral.exponent.isNone

/-- The number that a numeral stands for. -/
def value (numeral : Numeral) : Decimal :=
  let fraction := withoutSeparators (numeral.fraction.getD [])
  let exponent := (numeral.exponent.map ExponentPart.value).getD 0
  { digits := digitsValue 10 (withoutSeparators numeral.whole ++ fraction)
    exponent := exponent - fraction.length }

end Numeral

/-- The natural number that a text is the decimal notation of. -/
def naturalOfText? (text : List Char) : Option Nat :=
  if text.isEmpty || !text.all Char.isDigit then none else some (digitsValue 10 text)

/-- The integer that a text is the decimal notation of; it may have a sign. -/
def integerOfText? : List Char → Option Int
  | '-' :: digits => (naturalOfText? digits).map fun magnitude => -(magnitude : Int)
  | '+' :: digits => (naturalOfText? digits).map Int.ofNat
  | digits => (naturalOfText? digits).map Int.ofNat

/-- The exponent that a text is the notation of; where there is no text, there is none. -/
def exponentOfText? : List Char → Option Int
  | [] => some 0
  | _ :: signed => integerOfText? signed

/--
The number that a text is the decimal notation of: digits, at least one of them, among which a
point may stand, and behind the first `e` an exponent.
-/
def Decimal.ofText? (text : List Char) : Option Decimal :=
  let mantissa := text.takeWhile fun c => c != 'e' && c != 'E'
  let whole := mantissa.takeWhile (· != '.')
  let fraction := mantissa.drop (whole.length + 1)
  match naturalOfText? (whole ++ fraction), exponentOfText? (text.drop mantissa.length) with
  | some digits, some exponent => some ⟨digits, exponent - fraction.length⟩
  | _, _ => none

/-- A numeral takes at least one character where a digit stands, or a point and then a digit. -/
theorem Numeral.length_text_read_pos
    {first : Char}
    {rest : List Char}
    (starts : first.isDigit = true ∨ first = '.' ∧ (rest.head?.map Char.isDigit).getD false) :
    0 < (Numeral.read (first :: rest)).text.length := by
  rcases starts with digit | ⟨rfl, digit⟩
  · have whole : 0 < (Numeral.read (first :: rest)).whole.length := by
      simp [Numeral.read, isDecimalChar, digit]
    unfold Numeral.text Numeral.mantissaText
    split <;> simp only [List.length_append] <;> omega
  · have fraction : (Numeral.read ('.' :: rest)).fraction ≠ none := by
      have no_point : rest.head? ≠ some '.' := by
        intro point
        simp [point] at digit
      simp [Numeral.read, isDecimalChar, readFraction?, no_point]
    unfold Numeral.text Numeral.mantissaText
    split
    · contradiction
    · simp only [List.length_append, List.length_cons]
      omega

/-- The run of digits and separators behind the `0x` of a hexadecimal numeral. -/
def readHexadecimalRun (cs : List Char) : List Char :=
  cs.takeWhile fun c => isHexDigit c || c == '_'

end EmbeddedMarkup
