import EmbeddedMarkup.Expression.Numeral
import EmbeddedMarkup.Expression.StringLiteral
import EmbeddedMarkup.Expression.Token

/-!
# Reading one lexeme

A lexeme is read off the characters ahead alone.  A success holds the lexeme and the number of
characters that spell it; a failure holds its cause and the number of characters that were taken
before it showed.
-/

namespace EmbeddedMarkup

/-- A lexeme, or the cause why there is none, and the number of characters that were taken. -/
structure LexemeReading where
  outcome : Except LexicalCause Lexeme
  length : Nat

/-- A character that continues a name, which may be qualified with backslashes. -/
def isNameChar (c : Char) : Bool :=
  isIdentifierChar c || c == '\\'

/-- The kind of a word; keywords are recognised in any letter case. -/
def WordKind.ofText (text : String) : WordKind :=
  if sameWord text "fn" then .fn
  else if sameWord text "and" then .logicalAnd
  else if sameWord text "or" then .logicalOr
  else if sameWord text "xor" then .logicalXor
  else .identifier

/-- All spellings of symbols, the longer ones first. -/
def symbolSpellings : List (String × Symbol) :=
  [("===", .identical), ("!==", .notIdentical), ("?->", .nullsafeArrow), ("...", .ellipsis),
    ("==", .equal), ("!=", .notEqual), ("<>", .notEqual), ("<=", .lessOrEqual),
    (">=", .greaterOrEqual), ("&&", .booleanAnd), ("||", .booleanOr), ("??", .coalesce),
    ("=>", .doubleArrow), ("->", .arrow), ("::", .doubleColon),
    ("+", .plus), ("-", .minus), ("*", .star), ("/", .slash), ("%", .percent), (".", .dot),
    ("<", .less), (">", .greater), ("!", .not), ("=", .assign), ("(", .leftParen),
    (")", .rightParen), ("[", .leftBracket), ("]", .rightBracket), ("\x7b", .leftBrace),
    ("\x7d", .rightBrace), (",", .comma), (":", .colon), (";", .semicolon), ("?", .question)]

namespace LexemeReading

/-- A successful reading. -/
def found (lexeme : Lexeme) (length : Nat) : LexemeReading :=
  ⟨.ok lexeme, length⟩

/-- A failed reading. -/
def failed (cause : LexicalCause) (length : Nat) : LexemeReading :=
  ⟨.error cause, length⟩

/-- A hexadecimal numeral behind its `0` and the letter `marker`. -/
def hexadecimal (marker : Char) (rest : List Char) : LexemeReading :=
  let run := readHexadecimalRun rest
  let digits := withoutSeparators run
  let value := digitsValue 16 digits
  if digits.isEmpty || greatestInt < value then
    failed (.invalidNumber (String.ofList ('0' :: marker :: run))) (run.length + 2)
  else found (.int value) (run.length + 2)

/--
A decimal numeral, which is read once more from its text without separators.  A whole number that
is too large for an integer becomes a double.
-/
def decimal (cs : List Char) : LexemeReading :=
  let numeral := Numeral.read cs
  let text := withoutSeparators numeral.text
  let integer := if numeral.isWhole then naturalOfText? text else none
  match integer.filter (· ≤ greatestInt), Decimal.ofText? text with
  | some value, _ => found (.int value) numeral.text.length
  | none, some value => found (.float (Double.ofDecimal value)) numeral.text.length
  | none, none => failed (.invalidNumber (String.ofList text)) numeral.text.length

/-- A decimal numeral takes the characters that it is written with. -/
@[simp]
theorem length_decimal (cs : List Char) : (decimal cs).length = (Numeral.read cs).text.length := by
  unfold decimal
  dsimp only
  split <;> rfl

/-- A string behind its opening quote. -/
def string (quote : Char) (rest : List Char) : LexemeReading :=
  match readString? quote rest with
  | some reading => found (.string (String.ofList reading.value)) (reading.length + 1)
  | none => failed .unterminatedString (rest.length + 1)

/-- A variable behind its `$`. -/
def variableName (rest : List Char) : LexemeReading :=
  if (rest.head?.map isIdentifierStart).getD false then
    let name := rest.takeWhile isIdentifierChar
    found (.variable (String.ofList name)) (name.length + 1)
  else failed .missingVariableName 1

/-- A name or a keyword. -/
def word (cs : List Char) : LexemeReading :=
  let spelled := cs.takeWhile isNameChar
  let text := String.ofList spelled
  found (.word (.ofText text) text) spelled.length

/-- The longest symbol that the characters ahead start with. -/
def symbol (first : Char) (rest : List Char) : LexemeReading :=
  match symbolSpellings.find? fun entry => entry.1.toList.isPrefixOf (first :: rest) with
  | some (spelling, kind) => found (.symbol kind) spelling.toList.length
  | none => failed (.unexpectedCharacter first) 0

/-- A numeral starts with a digit, or with a point in front of a digit. -/
def startsNumeral (first : Char) (rest : List Char) : Bool :=
  first.isDigit || (first == '.' && (rest.head?.map Char.isDigit).getD false)

/-- A numeral, hexadecimal if it starts with `0x`. -/
def numeral (first : Char) (rest : List Char) : LexemeReading :=
  match first, rest with
  | '0', 'x' :: behind => hexadecimal 'x' behind
  | '0', 'X' :: behind => hexadecimal 'X' behind
  | _, _ => decimal (first :: rest)

/-- The lexeme that starts with `first`. -/
def startingWith (first : Char) (rest : List Char) : LexemeReading :=
  if startsNumeral first rest then numeral first rest
  else if first = '\'' ∨ first = '"' then string first rest
  else if first = '$' then variableName rest
  else if isIdentifierStart first || first == '\\' then word (first :: rest)
  else symbol first rest

/-- The lexeme that the characters ahead start with. -/
def ofChars : List Char → LexemeReading
  | [] => found .endOfInput 0
  | first :: rest => startingWith first rest

/-- Every symbol is spelled with at least one character. -/
theorem spelling_ne_nil : ∀ entry ∈ symbolSpellings, entry.1.toList ≠ [] := by
  decide

/-- A symbol takes at least one character. -/
theorem length_symbol_pos
    {first : Char}
    {rest : List Char}
    {lexeme : Lexeme}
    (found : (symbol first rest).outcome = .ok lexeme) :
    0 < (symbol first rest).length := by
  unfold symbol at found ⊢
  split at found
  · rename_i entry
    exact List.length_pos_iff.mpr (spelling_ne_nil _ (List.mem_of_find?_eq_some entry))
  · contradiction

/-- A numeral takes at least one character. -/
theorem length_numeral_pos
    {first : Char}
    {rest : List Char}
    (starts : startsNumeral first rest = true) :
    0 < (numeral first rest).length := by
  simp only [startsNumeral, Bool.or_eq_true, Bool.and_eq_true, beq_iff_eq] at starts
  unfold numeral
  split
  · unfold hexadecimal
    dsimp only
    split <;> exact Nat.succ_pos _
  · unfold hexadecimal
    dsimp only
    split <;> exact Nat.succ_pos _
  · rw [length_decimal]
    exact Numeral.length_text_read_pos starts

/-- A lexeme that starts with a character takes at least that character. -/
theorem length_startingWith_pos
    {first : Char}
    {rest : List Char}
    {lexeme : Lexeme}
    (found : (startingWith first rest).outcome = .ok lexeme) :
    0 < (startingWith first rest).length := by
  unfold startingWith at found ⊢
  split
  · rename_i starts
    exact length_numeral_pos starts
  · split
    · unfold string
      split <;> exact Nat.succ_pos _
    · split
      · unfold variableName
        split <;> exact Nat.succ_pos _
      · split
        · rename_i name
          have continues : isNameChar first = true := by
            simp only [isNameChar, Bool.or_eq_true] at name ⊢
            exact name.imp_left isIdentifierChar_of_isIdentifierStart
          simp [word, LexemeReading.found, continues]
        · simp_all only [if_false]
          exact length_symbol_pos found

/-- Every lexeme but the end of the input takes at least one character, and there is one. -/
theorem length_pos
    {cs : List Char}
    {lexeme : Lexeme}
    (found : (ofChars cs).outcome = .ok lexeme)
    (more : lexeme ≠ .endOfInput) :
    0 < (ofChars cs).length ∧ cs ≠ [] := by
  cases cs with
  | nil =>
      cases found
      contradiction
  | cons first rest => exact ⟨length_startingWith_pos found, List.cons_ne_nil _ _⟩

end LexemeReading
end EmbeddedMarkup
