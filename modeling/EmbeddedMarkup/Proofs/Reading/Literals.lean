import EmbeddedMarkup.Proofs.Expression.Numerals
import EmbeddedMarkup.Proofs.Reading.Words

/-!
# Reading literals

A string in quotes is read as a token that covers it and holds the string, whatever text follows it
and however its characters are escaped.  A decimal numeral is read as the longest text of its form
that is ahead and never fails; a hexadecimal one takes its whole run of digits, and fails behind it.
-/

namespace EmbeddedMarkup

variable {c start : Cursor} {first : Char} {rest : List Char} {lexeme : Lexeme}
  {cause : LexicalCause} {length : Nat}

/-! ## Strings -/

/-- In front of any text and at any position the literal is read as a string that covers it. -/
def ReadsString (literal : List Char) (value : String) : Prop :=
  ∀ (behind : List Char) (position : Position),
    let start : Cursor := ⟨literal ++ behind, position⟩
    ∃ stop, start.Passes literal stop ∧ stop.rest = behind ∧
      readToken start = ⟨.ok ⟨.string value, start.spanTo stop⟩, stop⟩

theorem LexemeReading.ofChars_quote (style : StringStyle) (rest : List Char) :
    ofChars (style.quote :: rest) = string style.quote rest := by
  cases style <;> rfl

/-- A literal is read off the characters that it is written with. -/
theorem LexemeReading.ofChars_write (style : StringStyle) (value : String) (behind : List Char) :
    ofChars (style.write value.toList ++ behind) =
      found (.string value) (style.write value.toList).length := by
  have split : style.write value.toList ++ behind =
      style.quote :: (style.body value.toList ++ style.quote :: behind) := by
    simp [StringStyle.write]
  rw [split, ofChars_quote, string, StringStyle.readString?_body]
  simp [StringStyle.write]

/-- No trivia are in front of a quote. -/
theorem skipTrivia_quote (style : StringStyle) (rest : List Char) (position : Position) :
    skipTrivia ⟨style.quote :: rest, position⟩ = ⟨.ok (), ⟨style.quote :: rest, position⟩⟩ := by
  have still : (Cursor.mk (style.quote :: rest) position).skipBlanks =
      ⟨style.quote :: rest, position⟩ :=
    Cursor.skipBlanks_of_peek? rfl (by cases style <;> rfl)
  rw [skipTrivia_eq_skipBlanks, still]
  rw [still]
  cases style <;> rfl

/-- A string is read back in whatever style it is written. -/
theorem readsString_write (style : StringStyle) (value : String) :
    ReadsString (style.write value.toList) value := by
  intro behind position start
  have passes : start.Passes (style.write value.toList)
      (start.advanceBy (style.write value.toList).length) :=
    Cursor.passes_advanceBy rfl
  refine ⟨_, passes, Cursor.rest_advanceBy_length rfl, readToken_eq_ok_iff.mpr ?_⟩
  exact ⟨start, _, skipTrivia_quote style _ position,
    LexemeReading.ofChars_write style value behind, rfl, rfl⟩

/--
A string in single or double quotes, with a backslash in front of each backslash and of each quote,
is read back; and so is one in double quotes some of whose control characters and dollar signs, at
whichever places, are written as a backslash and a letter.
-/
theorem readsString_quoted (value : String) :
    (∀ quote, quote = '\'' ∨ quote = '"' →
      ReadsString (quote :: (escapeQuotes quote value.toList ++ [quote])) value) ∧
      ∀ lettered, ReadsString ((StringStyle.double lettered).write value.toList) value := by
  have plainly (style : StringStyle) (plain : ∀ place ch, style.letterAt place ch = none) :
      ReadsString (style.quote :: (escapeQuotes style.quote value.toList ++ [style.quote]))
        value := by
    rw [← StringStyle.body_eq_escapeQuotes plain]
    exact readsString_write style value
  refine ⟨?_, fun lettered => readsString_write _ value⟩
  rintro quote (rfl | rfl)
  · exact plainly .single fun _ _ => rfl
  · exact plainly (.double fun _ => false) fun _ _ => rfl

/-! ## Numerals -/

/-- The characters start with the mark of a hexadecimal numeral. -/
def StartsHexadecimal (cs : List Char) : Prop :=
  ∃ marker behind, (marker = 'x' ∨ marker = 'X') ∧ cs = '0' :: marker :: behind

/-- A failed lexeme is reported with the characters that were taken. -/
theorem readToken_of_failed
    (skipped : skipTrivia c = ⟨.ok (), start⟩)
    (failed : LexemeReading.ofChars start.rest = .failed cause length) :
    readToken c = ⟨.error ⟨cause, start.spanTo (start.advanceBy length)⟩,
      start.advanceBy length⟩ := by
  simp only [readToken, skipped, tokenAt, failed, LexemeReading.failed]

theorem LexemeReading.ofChars_of_startsNumeral (starts : startsNumeral first rest = true) :
    ofChars (first :: rest) = numeral first rest := by
  rw [ofChars, startingWith, if_pos starts]

/-- A decimal numeral is read as the longest one that is ahead. -/
theorem readToken_decimal
    (skipped : skipTrivia c = ⟨.ok (), start⟩)
    (ahead : start.rest = first :: rest)
    (starts : LexemeReading.startsNumeral first rest = true)
    (decimal : ¬StartsHexadecimal start.rest) :
    ∃ numeral stop, start.Passes (Numeral.text numeral) stop ∧
      numeral.StandsBefore stop.rest ∧ numeral.IsLongestBefore stop.rest ∧
      readToken c = ⟨.ok ⟨numeral.lexeme, start.spanTo stop⟩, stop⟩ := by
  have unmarked (marker : Char) (marks : marker = 'x' ∨ marker = 'X') :
      ¬(first = '0' ∧ rest.head? = some marker) := by
    rintro ⟨rfl, second⟩
    obtain ⟨behind, rfl⟩ := List.head?_eq_some_iff.mp second
    exact decimal ⟨marker, behind, marks, ahead⟩
  obtain ⟨later, split⟩ := Numeral.prefix_text (first :: rest)
  have passes := Cursor.passes_advanceBy (ahead.trans split.symm)
  have whole : (Numeral.read (first :: rest)).text ++
      (start.advanceBy (Numeral.read (first :: rest)).text.length).rest = first :: rest := by
    rw [← passes.1, ahead]
  refine ⟨_, _, passes, Numeral.standsBefore_read whole, Numeral.isLongestBefore_read whole,
    readToken_eq_ok_iff.mpr ⟨start, _, skipped, ?_, rfl, rfl⟩⟩
  rw [ahead, LexemeReading.ofChars_of_startsNumeral starts,
    LexemeReading.numeral_eq_decimal (unmarked 'x' (.inl rfl)) (unmarked 'X' (.inr rfl)),
    LexemeReading.decimal_eq_found starts]

/-- A hexadecimal numeral takes its run, and is read if it has a digit and is small enough. -/
theorem readToken_hexadecimal
    {marker : Char} {behind : List Char}
    (skipped : skipTrivia c = ⟨.ok (), start⟩)
    (marks : marker = 'x' ∨ marker = 'X')
    (ahead : start.rest = '0' :: marker :: behind) :
    ∃ run stop, start.Passes ('0' :: marker :: run) stop ∧ IsHexadecimalRun run stop.rest ∧
      readToken c =
        if run.any isHexDigit = true ∧ digitsValue 16 (withoutSeparators run) < Nat.pow 2 63 then
          ⟨.ok ⟨.int (digitsValue 16 (withoutSeparators run)), start.spanTo stop⟩, stop⟩
        else
          ⟨.error ⟨.invalidNumber (String.ofList ('0' :: marker :: run)), start.spanTo stop⟩,
            stop⟩ := by
  have isRun := isHexadecimalRun_readHexadecimalRun behind
  have split : readHexadecimalRun behind ++ behind.dropWhile isHexChar = behind :=
    List.takeWhile_append_dropWhile
  generalize readHexadecimalRun behind = run at isRun split
  generalize behind.dropWhile isHexChar = later at isRun split
  subst split
  have passes : start.Passes ('0' :: marker :: run)
      (start.advanceBy ('0' :: marker :: run).length) :=
    Cursor.passes_advanceBy ahead
  have left : (start.advanceBy ('0' :: marker :: run).length).rest = later :=
    Cursor.rest_advanceBy_length ahead
  refine ⟨run, _, passes, left ▸ isRun, ?_⟩
  have read : LexemeReading.ofChars start.rest =
      LexemeReading.hexadecimal marker (run ++ later) := by
    rw [ahead]
    rcases marks with rfl | rfl <;> rfl
  rw [LexemeReading.hexadecimal_eq isRun] at read
  split
  · rename_i reads
    rw [if_pos reads] at read
    exact readToken_eq_ok_iff.mpr ⟨start, _, skipped, read, rfl, rfl⟩
  · rename_i fails
    rw [if_neg fails] at read
    exact readToken_of_failed skipped read

/--
Where a numeral stands behind the trivia, it is read.  A decimal one never fails: it is the longest
text of the form of a numeral, and it is an integer if it has neither a point nor an exponent and is
small enough.  A hexadecimal one takes its run of digits and separators, and it is read if there is
a digit among them and the value is small enough.
-/
theorem readToken_number
    (skipped : skipTrivia c = ⟨.ok (), start⟩)
    (ahead : start.rest = first :: rest)
    (starts : LexemeReading.startsNumeral first rest = true) :
    (¬StartsHexadecimal start.rest →
      ∃ numeral stop, start.Passes (Numeral.text numeral) stop ∧
        numeral.StandsBefore stop.rest ∧ numeral.IsLongestBefore stop.rest ∧
        readToken c = ⟨.ok ⟨numeral.lexeme, start.spanTo stop⟩, stop⟩) ∧
      ∀ marker behind, marker = 'x' ∨ marker = 'X' → start.rest = '0' :: marker :: behind →
        ∃ run stop, start.Passes ('0' :: marker :: run) stop ∧ IsHexadecimalRun run stop.rest ∧
          readToken c =
            if run.any isHexDigit = true ∧
                digitsValue 16 (withoutSeparators run) < Nat.pow 2 63 then
              ⟨.ok ⟨.int (digitsValue 16 (withoutSeparators run)), start.spanTo stop⟩, stop⟩
            else
              ⟨.error ⟨.invalidNumber (String.ofList ('0' :: marker :: run)),
                start.spanTo stop⟩, stop⟩ :=
  ⟨readToken_decimal skipped ahead starts, fun _ _ => readToken_hexadecimal skipped⟩

/-- A numeral with all its parts behind a space, and a hexadecimal one without digits. -/
theorem readToken_number_examples :
    (∃ numeral stop, ((Cursor.ofText " 1_0.5e3.").advanceBy 1).Passes (Numeral.text numeral) stop ∧
      numeral.StandsBefore stop.rest ∧ numeral.IsLongestBefore stop.rest ∧
      readToken (.ofText " 1_0.5e3.") =
        ⟨.ok ⟨numeral.lexeme, ((Cursor.ofText " 1_0.5e3.").advanceBy 1).spanTo stop⟩, stop⟩) ∧
      ∃ run stop, (Cursor.ofText "0x_").Passes ('0' :: 'x' :: run) stop ∧
        IsHexadecimalRun run stop.rest ∧
        readToken (.ofText "0x_") =
          if run.any isHexDigit = true ∧ digitsValue 16 (withoutSeparators run) < Nat.pow 2 63 then
            ⟨.ok ⟨.int (digitsValue 16 (withoutSeparators run)),
              (Cursor.ofText "0x_").spanTo stop⟩, stop⟩
          else
            ⟨.error ⟨.invalidNumber (String.ofList ('0' :: 'x' :: run)),
              (Cursor.ofText "0x_").spanTo stop⟩, stop⟩ := by
  have spaced : skipTrivia (.ofText " 1_0.5e3.") =
      ⟨.ok (), (Cursor.ofText " 1_0.5e3.").advanceBy 1⟩ :=
    skipTrivia_eq_skipBlanks rfl
  have bare : skipTrivia (.ofText "0x_") = ⟨.ok (), .ofText "0x_"⟩ :=
    skipTrivia_eq_skipBlanks rfl
  have decimal : ¬StartsHexadecimal ((Cursor.ofText " 1_0.5e3.").advanceBy 1).rest := by
    rintro ⟨marker, behind, -, starts⟩
    cases starts
  exact ⟨(readToken_number spaced rfl rfl).1 decimal,
    (readToken_number bare rfl rfl).2 'x' ['_'] (.inl rfl) rfl⟩

end EmbeddedMarkup
