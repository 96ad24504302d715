/-!
# Character classes

Identifiers, blank space and digits are classes of ASCII characters.  A character outside
ASCII is in none of them, so it is ordinary text wherever it stands.
-/

namespace EmbeddedMarkup

/-- An identifier, a tag name segment or a member name starts with a letter or `_`. -/
def isIdentifierStart (c : Char) : Bool :=
  c.isAlpha || c == '_'

/-- An identifier continues with letters, digits and `_`. -/
def isIdentifierChar (c : Char) : Bool :=
  c.isAlphanum || c == '_'

/-- Blank space is made of spaces, tabs, line feeds, form feeds and carriage returns. -/
def isBlank (c : Char) : Bool :=
  c == ' ' || c == '\t' || c == '\n' || c == '\x0c' || c == '\r'

/-- A space or a tab: blank space that does not leave the line. -/
def isInlineBlank (c : Char) : Bool :=
  c == ' ' || c == '\t'

/-- A line comment ends before either of these. -/
def isLineEnd (c : Char) : Bool :=
  c == '\n' || c == '\r'

/-- A digit of a decimal numeral, or the `_` that may separate digits. -/
def isDecimalChar (c : Char) : Bool :=
  c.isDigit || c == '_'

/-- A digit of a hexadecimal numeral. -/
def isHexDigit (c : Char) : Bool :=
  c.isDigit || ('a' ≤ c && c ≤ 'f') || ('A' ≤ c && c ≤ 'F')

/-- The character is outside ASCII. -/
def isBeyondAscii (c : Char) : Bool :=
  127 < c.toNat

/-- Whether all characters of a list pass is decided along the list, not over all characters. -/
instance decidableForallMem (cs : List Char) (p : Char → Prop) [DecidablePred p] :
    Decidable (∀ c ∈ cs, p c) :=
  List.decidableBAll p cs

theorem isUpper_iff {c : Char} : c.isUpper = true ↔ 65 ≤ c.toNat ∧ c.toNat ≤ 90 := by
  change decide (c.val ≥ 65 ∧ c.val ≤ 90) = true ↔ _
  simp only [decide_eq_true_eq, ge_iff_le, UInt32.le_iff_toNat_le]
  rfl

theorem isLower_iff {c : Char} : c.isLower = true ↔ 97 ≤ c.toNat ∧ c.toNat ≤ 122 := by
  change (decide (c.val ≥ 97) && decide (c.val ≤ 122)) = true ↔ _
  simp only [Bool.and_eq_true, decide_eq_true_eq, ge_iff_le, UInt32.le_iff_toNat_le]
  rfl

theorem isDigit_iff {c : Char} : c.isDigit = true ↔ 48 ≤ c.toNat ∧ c.toNat ≤ 57 := by
  change (decide (c.val ≥ 48) && decide (c.val ≤ 57)) = true ↔ _
  simp only [Bool.and_eq_true, decide_eq_true_eq, ge_iff_le, UInt32.le_iff_toNat_le]
  rfl

/-- Letters are those of ASCII. -/
theorem isAlpha_iff {c : Char} :
    c.isAlpha = true ↔ 65 ≤ c.toNat ∧ c.toNat ≤ 90 ∨ 97 ≤ c.toNat ∧ c.toNat ≤ 122 := by
  rw [← isUpper_iff, ← isLower_iff, ← Bool.or_eq_true]
  rfl

/-- What starts an identifier also continues one. -/
theorem isIdentifierChar_of_isIdentifierStart
    {c : Char}
    (start : isIdentifierStart c = true) :
    isIdentifierChar c = true := by
  simp only [isIdentifierStart, isIdentifierChar, Char.isAlphanum, Bool.or_eq_true] at *
  rcases start with letter | underscore
  · exact .inl (.inl letter)
  · exact .inr underscore

/-- Two spellings are the same word when they differ in the case of ASCII letters only. -/
def sameWord (first second : String) : Bool :=
  first.toList.map Char.toLower == second.toList.map Char.toLower

end EmbeddedMarkup
