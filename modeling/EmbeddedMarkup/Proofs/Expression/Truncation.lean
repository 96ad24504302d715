import EmbeddedMarkup.Proofs.Expression.Spelling
import EmbeddedMarkup.Proofs.Text.Comment

/-!
# Texts that are cut off

A lexeme or a comment that ends inside a text is read off the text alone, whatever was behind the
text.  The readers do look at characters behind what they take, but a missing character never
makes them take more.  Points are the one exception: `1.` is a numeral at the end of a text, and no
numeral in front of another point.
-/

namespace EmbeddedMarkup

variable {rest rest' word : List Char} {first ch : Char} {p : Char → Bool} {lexeme : Lexeme}
  {length : Nat}

/-- A run that ends inside a text is a run of the text. -/
theorem takeWhile_of_append (fits : ((word ++ rest).takeWhile p).length ≤ word.length) :
    (word ++ rest).takeWhile p = word.takeWhile p := by
  induction word with
  | nil => exact List.eq_nil_of_length_eq_zero (Nat.le_zero.mp fits)
  | cons ch word ih =>
      cases passes : p ch with
      | false => simp [passes]
      | true =>
          simp only [List.cons_append, List.takeWhile_cons_of_pos passes, List.length_cons,
            Nat.add_le_add_iff_right] at fits ⊢
          rw [ih fits]

/-! ## Numerals -/

section Numerals

/-- An exponent that ends inside a text is the exponent of the text, and there is no other one. -/
theorem ExponentPart.read?_of_append
    (fits : ∀ part, read? (word ++ rest) = some part → part.text.length ≤ word.length) :
    read? (word ++ rest) = read? word := by
  cases word with
  | nil =>
      cases found : read? ([] ++ rest) with
      | none => rfl
      | some part => exact absurd (fits part found) (Nat.not_succ_le_zero _)
  | cons marker word =>
      rw [List.cons_append, read?] at fits ⊢
      rw [read?]
      split
      · rename_i marked
        simp only [marked, if_true] at fits
        dsimp only at fits ⊢
        cases word with
        | nil =>
            split
            · rfl
            · rename_i digits
              rw [if_neg digits] at fits
              have taken := fits _ rfl
              simp only [text, List.length_cons, List.length_append, List.length_nil] at taken
              exact absurd (List.isEmpty_iff_length_eq_zero.mpr (by omega)) digits
        | cons next word =>
            rw [List.cons_append, List.head?_cons, ← List.cons_append] at fits ⊢
            rw [List.head?_cons]
            generalize signed :
              (some next).filter (fun ch => ch == '+' || ch == '-') = sign at fits ⊢
            have short : sign.toList.length ≤ (next :: word).length := by
              subst signed
              rw [Option.filter_some]
              split <;> simp
            rw [List.drop_append_of_le_length short] at fits ⊢
            rw [takeWhile_of_append]
            by_cases none : (((next :: word).drop sign.toList.length ++ rest).takeWhile
                Char.isDigit).isEmpty = true
            · rw [List.isEmpty_iff_length_eq_zero.mp none]
              exact Nat.zero_le _
            · rw [if_neg none] at fits
              have taken := fits _ rfl
              simp only [text, List.length_cons, List.length_append] at taken
              rw [List.length_drop, List.length_cons]
              omega
      · rfl

/--
A fraction that ends inside a text is the fraction of the text, if the text does not end between two
points.
-/
theorem readFraction?_of_append
    (whole : word.getLast? = some '.' → rest.head? ≠ some '.')
    (fits : ∀ fraction, readFraction? (word ++ rest) = some fraction →
      fraction.length + 1 ≤ word.length) :
    readFraction? (word ++ rest) = readFraction? word := by
  cases word with
  | nil =>
      cases found : readFraction? ([] ++ rest) with
      | none => rfl
      | some fraction => exact absurd (fits fraction found) (Nat.not_succ_le_zero _)
  | cons ch word =>
      by_cases same : ch = '.'
      · subst same
        have second : (word ++ rest).head? = some '.' ↔ word.head? = some '.' := by
          cases word with
          | nil => simpa using whole rfl
          | cons ch word => rfl
        rw [List.cons_append, readFraction?] at fits ⊢
        rw [readFraction?]
        simp only [second] at fits ⊢
        split
        · rfl
        · rename_i alone
          rw [takeWhile_of_append]
          simpa [alone] using fits
      · simp [readFraction?, same]

/-- Behind some characters of a text its last character is the same, if it is left. -/
theorem getLast?_drop_eq_some {n : Nat} (last : (word.drop n).getLast? = some ch) :
    word.getLast? = some ch := by
  rw [List.getLast?_drop] at last
  split at last
  · cases last
  · exact last

/-- A numeral that ends inside a text is read off the text, if that does not end between points. -/
theorem Numeral.read_of_append
    (whole : word.getLast? = some '.' → rest.head? ≠ some '.')
    (fits : (Numeral.read (word ++ rest)).text.length ≤ word.length) :
    Numeral.read (word ++ rest) = Numeral.read word := by
  rw [text, List.length_append] at fits
  have mantissa := Nat.le_trans (Nat.le_add_right _ _) fits
  have digits : (word ++ rest).takeWhile isDecimalChar = word.takeWhile isDecimalChar := by
    apply takeWhile_of_append
    refine Nat.le_trans ?_ mantissa
    unfold mantissaText
    split
    · exact Nat.le_refl _
    · rw [List.length_append]
      exact Nat.le_add_right _ _
  have behindDigits : (word ++ rest).drop (word.takeWhile isDecimalChar).length =
      word.drop (word.takeWhile isDecimalChar).length ++ rest :=
    List.drop_append_of_le_length (List.takeWhile_prefix _).length_le
  have fraction : readFraction? ((word ++ rest).drop (word.takeWhile isDecimalChar).length) =
      readFraction? (word.drop (word.takeWhile isDecimalChar).length) := by
    rw [behindDigits]
    apply readFraction?_of_append fun last => whole (getLast?_drop_eq_some last)
    intro fraction found
    simp only [Numeral.read, digits, behindDigits, found, mantissaText, List.length_append,
      List.length_cons] at mantissa
    rw [List.length_drop]
    omega
  have behindMantissa := @List.drop_append_of_le_length _ word rest _
    (prefix_mantissaText word).length_le
  have exponent : ExponentPart.read? ((word ++ rest).drop
      (mantissaText (Numeral.read word).whole (Numeral.read word).fraction).length) =
      ExponentPart.read? (word.drop
        (mantissaText (Numeral.read word).whole (Numeral.read word).fraction).length) := by
    rw [behindMantissa]
    apply ExponentPart.read?_of_append
    intro part found
    rw [← behindMantissa] at found
    simp only [Numeral.read, digits, fraction] at fits found
    simp only [found, Option.map_some, Option.getD_some] at fits
    rw [List.length_drop]
    simp only [Numeral.read]
    omega
  simp only [Numeral.read] at exponent
  simp only [Numeral.read, digits, fraction, exponent]

end Numerals

namespace LexemeReading

/-- A hexadecimal numeral that ends inside a text is read off the text. -/
theorem hexadecimal_of_append
    {marker : Char}
    (fits : (hexadecimal marker (word ++ rest)).length ≤ word.length + 2) :
    hexadecimal marker (word ++ rest) = hexadecimal marker word := by
  have run : readHexadecimalRun (word ++ rest) = readHexadecimalRun word := by
    apply takeWhile_of_append
    have taken : (hexadecimal marker (word ++ rest)).length =
        (readHexadecimalRun (word ++ rest)).length + 2 := by
      unfold hexadecimal
      dsimp only
      split <;> rfl
    rw [taken] at fits
    exact Nat.le_of_add_le_add_right fits
  simp only [hexadecimal, run]

/-- A numeral that ends inside a text is read off the text, if that does not end between points. -/
theorem numeral_of_append
    (whole : (first :: word).getLast? = some '.' → rest.head? ≠ some '.')
    (fits : (numeral first (word ++ rest)).length ≤ word.length + 1) :
    numeral first (word ++ rest) = numeral first word := by
  have marked {marker : Char} (other : marker = 'x' ∨ marker = 'X')
      (second : (word ++ rest).head? = some marker) (zero : first = '0') :
      word.head? = some marker := by
    subst zero
    cases word with
    | cons ch word => exact second
    | nil =>
        obtain ⟨more, rfl⟩ := List.head?_eq_some_iff.mp second
        have long : 2 ≤ (numeral '0' (marker :: more)).length := by
          rcases other with rfl | rfl <;>
            simp only [numeral, hexadecimal] <;> split <;> exact Nat.le_add_left _ _
        exact absurd (Nat.le_trans long fits) (by decide)
  by_cases lower : first = '0' ∧ word.head? = some 'x'
  · obtain ⟨rfl, second⟩ := lower
    obtain ⟨behind, rfl⟩ := List.head?_eq_some_iff.mp second
    exact hexadecimal_of_append fits
  · by_cases upper : first = '0' ∧ word.head? = some 'X'
    · obtain ⟨rfl, second⟩ := upper
      obtain ⟨behind, rfl⟩ := List.head?_eq_some_iff.mp second
      exact hexadecimal_of_append fits
    · have lower' : ¬(first = '0' ∧ (word ++ rest).head? = some 'x') := fun both =>
        lower ⟨both.1, marked (.inl rfl) both.2 both.1⟩
      have upper' : ¬(first = '0' ∧ (word ++ rest).head? = some 'X') := fun both =>
        upper ⟨both.1, marked (.inr rfl) both.2 both.1⟩
      rw [numeral_eq_decimal lower' upper'] at fits ⊢
      rw [length_decimal] at fits
      rw [numeral_eq_decimal lower upper, decimal, decimal, ← List.cons_append,
        Numeral.read_of_append whole fits]

/-- A numeral that starts with a point takes the digit behind the point. -/
theorem two_le_length_numeral_point (digit : (rest.head?.map Char.isDigit).getD false = true) :
    2 ≤ (numeral '.' rest).length := by
  cases rest with
  | nil => cases digit
  | cons next rest =>
      have isDigit : next.isDigit = true := digit
      have point : next ≠ '.' := by
        rintro rfl
        cases digit
      have decimalChar : isDecimalChar next = true := by
        simp [isDecimalChar, isDigit]
      have fraction : (Numeral.read ('.' :: next :: rest)).fraction =
          some ((next :: rest).takeWhile isDecimalChar) := by
        simp [Numeral.read, isDecimalChar, readFraction?, point]
      rw [numeral_eq_decimal (by simp) (by simp), length_decimal]
      simp only [Numeral.text, Numeral.mantissaText, fraction,
        List.takeWhile_cons_of_pos decimalChar, List.length_append, List.length_cons]
      omega

/-- A numeral starts inside a text alike, if it ends there. -/
theorem startsNumeral_of_append
    (fits : startsNumeral first (word ++ rest) = true →
      (numeral first (word ++ rest)).length ≤ word.length + 1) :
    startsNumeral first (word ++ rest) = startsNumeral first word := by
  cases word with
  | cons ch word => rfl
  | nil =>
      rw [List.nil_append] at fits ⊢
      by_cases point : first = '.'
      · subst point
        cases digit : (rest.head?.map Char.isDigit).getD false with
        | false => simp [startsNumeral, digit]
        | true =>
            have long := two_le_length_numeral_point digit
            have short := fits (by simp [startsNumeral, digit])
            exact absurd (Nat.le_trans long short) (by decide)
      · simp [startsNumeral, point]

/-- The name of a variable that ends inside a text is read off the text. -/
theorem variableName_of_append
    (found : variableName (word ++ rest) = .found lexeme length)
    (fits : length ≤ word.length + 1) :
    variableName word = .found lexeme length := by
  unfold variableName at found
  split at found <;> cases found
  rename_i letter
  cases word with
  | nil =>
      cases rest with
      | nil => cases letter
      | cons next rest =>
          have continues := isIdentifierChar_of_isIdentifierStart letter
          simp [continues] at fits
  | cons next word =>
      have starts : ((next :: word).head?.map isIdentifierStart).getD false = true := letter
      rw [variableName, if_pos starts, takeWhile_of_append (Nat.le_of_succ_le_succ fits)]

/-- A word that ends inside a text is read off the text. -/
theorem word_of_append
    (found : LexemeReading.word (word ++ rest) = .found lexeme length)
    (fits : length ≤ word.length) :
    LexemeReading.word word = .found lexeme length := by
  cases found
  rw [LexemeReading.word, ← takeWhile_of_append fits]

/-- A symbol that ends inside a text is read off the text: no longer one starts there. -/
theorem symbol_of_append
    (found : symbol first (word ++ rest) = .found lexeme length)
    (fits : length ≤ word.length + 1) :
    symbol first word = .found lexeme length := by
  unfold symbol at found
  split at found <;> cases found
  rename_i spelling kind entry
  rw [List.find?_eq_some_iff_append] at entry
  obtain ⟨spelled, before, behind, split, others⟩ := entry
  have ahead := List.isPrefixOf_iff_prefix.mp spelled
  have inside : spelling.toList.isPrefixOf (first :: word) = true :=
    List.isPrefixOf_iff_prefix.mpr
      (List.prefix_of_prefix_length_le ahead (List.prefix_append (first :: word) rest) fits)
  have first_entry :
      symbolSpellings.find? (fun entry => entry.1.toList.isPrefixOf (first :: word)) =
        some (spelling, kind) := by
    refine List.find?_eq_some_iff_append.mpr ⟨inside, before, behind, split, ?_⟩
    intro entry member
    have other := others entry member
    simp only [Bool.not_eq_true', Bool.eq_false_iff, ne_eq, List.isPrefixOf_iff_prefix] at other ⊢
    exact fun starts => other (starts.trans (List.prefix_append (first :: word) rest))
  rw [symbol, first_entry]

end LexemeReading

/-! ## Strings -/

section Strings

variable {quote : Char} {reading : StringReading}

/-- A string literal ends with its quote. -/
theorem exists_quote_of_readString?
    {cs : List Char}
    (found : readString? quote cs = some reading) :
    ∃ body behind, cs = body ++ [quote] ++ behind ∧ reading.length = (body ++ [quote]).length := by
  fun_induction readString? quote cs generalizing reading with
  | case1 => cases found
  | case2 cs =>
      cases found
      exact ⟨[], cs, rfl, rfl⟩
  | case3 => cases found
  | case4 escaped cs _ _ _ ih =>
      obtain ⟨inner, innerFound, rfl⟩ := Option.map_eq_some_iff.mp found
      obtain ⟨body, behind, rfl, taken⟩ := ih innerFound
      exact ⟨'\\' :: escaped :: body, behind, rfl, by simp [StringReading.cons, taken]; omega⟩
  | case5 escaped cs _ _ ih =>
      obtain ⟨inner, innerFound, rfl⟩ := Option.map_eq_some_iff.mp found
      obtain ⟨body, behind, spelled, taken⟩ := ih innerFound
      rw [spelled]
      exact ⟨'\\' :: body, behind, rfl, by simp [StringReading.cons, taken]; omega⟩
  | case6 ch cs _ _ ih =>
      obtain ⟨inner, innerFound, rfl⟩ := Option.map_eq_some_iff.mp found
      obtain ⟨body, behind, rfl, taken⟩ := ih innerFound
      exact ⟨ch :: body, behind, rfl, by simp [StringReading.cons, taken]; omega⟩

theorem length_readString?_pos (found : readString? quote word = some reading) :
    0 < reading.length := by
  unfold readString? at found
  split at found
  · cases found
  · split at found
    · cases found
      exact Nat.one_pos
    · split at found
      · split at found
        · cases found
        · split at found <;> obtain ⟨inner, -, rfl⟩ := Option.map_eq_some_iff.mp found <;>
            simp only [StringReading.cons] <;> omega
      · obtain ⟨inner, -, rfl⟩ := Option.map_eq_some_iff.mp found
        simp only [StringReading.cons]
        omega

/-- A string that ends inside a text is a string of the text. -/
theorem readString?_of_append
    (found : readString? quote (word ++ rest) = some reading)
    (fits : reading.length ≤ word.length) :
    readString? quote word = some reading := by
  fun_induction readString? quote word generalizing reading with
  | case1 => exact absurd (length_readString?_pos found) (Nat.not_lt.mpr fits)
  | case2 word =>
      rw [List.cons_append, readString?.eq_def] at found
      simpa using found
  | case3 unquoted =>
      rw [List.cons_append, readString?.eq_def] at found
      simp only [unquoted, if_false, if_true, List.nil_append] at found
      split at found
      · cases found
      · split at found <;> obtain ⟨inner, innerFound, rfl⟩ := Option.map_eq_some_iff.mp found <;>
          have more := length_readString?_pos innerFound <;>
          simp only [StringReading.cons, List.length_cons, List.length_nil] at fits <;> omega
  | case4 escaped word meaning escapes unquoted ih =>
      rw [List.cons_append, List.cons_append, readString?.eq_def] at found
      simp only [unquoted, if_false, if_true, escapes] at found
      obtain ⟨inner, innerFound, rfl⟩ := Option.map_eq_some_iff.mp found
      simp only [StringReading.cons, List.length_cons] at fits
      rw [ih innerFound (by omega)]
      rfl
  | case5 escaped word plain unquoted ih =>
      rw [List.cons_append, List.cons_append, readString?.eq_def] at found
      simp only [unquoted, if_false, if_true, plain] at found
      obtain ⟨inner, innerFound, rfl⟩ := Option.map_eq_some_iff.mp found
      simp only [StringReading.cons, List.length_cons] at fits
      rw [ih innerFound (by simp only [List.length_cons]; omega)]
      rfl
  | case6 ch word unquoted visible ih =>
      rw [List.cons_append, readString?.eq_def] at found
      simp only [unquoted, if_false, visible] at found
      obtain ⟨inner, innerFound, rfl⟩ := Option.map_eq_some_iff.mp found
      simp only [StringReading.cons, List.length_cons] at fits
      rw [ih innerFound (by omega)]
      rfl

end Strings

namespace LexemeReading

/-- A string that ends inside a text is read off the text. -/
theorem string_of_append
    (found : string quote (word ++ rest) = .found lexeme length)
    (fits : length ≤ word.length + 1) :
    string quote word = .found lexeme length := by
  unfold string at found ⊢
  split at found <;> cases found
  rename_i reading closed
  rw [readString?_of_append closed (Nat.le_of_succ_le_succ fits)]

/--
A lexeme that ends inside a text is read off the text, if a number's text does not end between two
points.
-/
theorem startingWith_of_append
    (whole : lexeme.isNumber = true → (first :: word).getLast? = some '.' → rest.head? ≠ some '.')
    (found : startingWith first (word ++ rest) = .found lexeme length)
    (fits : length ≤ word.length + 1) :
    startingWith first word = .found lexeme length := by
  unfold startingWith at found ⊢
  have starts : startsNumeral first (word ++ rest) = startsNumeral first word := by
    refine startsNumeral_of_append fun starts => ?_
    rw [if_pos starts] at found
    rw [found]
    exact fits
  rw [starts] at found
  split
  · rename_i digit
    rw [if_pos digit] at found
    have isNumber := isNumber_of_numeral (congrArg outcome found)
    rw [← numeral_of_append (whole isNumber) (by rw [found]; exact fits), found]
  · rename_i other
    rw [if_neg other] at found
    split
    · rename_i quoted
      rw [if_pos quoted] at found
      exact string_of_append found fits
    · rename_i unquoted
      rw [if_neg unquoted] at found
      split
      · rename_i dollar
        rw [if_pos dollar] at found
        exact variableName_of_append found fits
      · rename_i other
        rw [if_neg other] at found
        split
        · rename_i named
          rw [if_pos named] at found
          exact word_of_append found fits
        · rename_i other
          rw [if_neg other] at found
          exact symbol_of_append found fits

/-- A lexeme that ends inside a text is read off the text. -/
theorem ofChars_of_append
    (nonempty : word ≠ [])
    (whole : lexeme.isNumber = true → word.getLast? = some '.' → rest.head? ≠ some '.')
    (found : ofChars (word ++ rest) = .found lexeme length)
    (fits : length ≤ word.length) :
    ofChars word = .found lexeme length := by
  cases word with
  | nil => contradiction
  | cons first word => exact startingWith_of_append whole found fits

theorem length_numeral_le : (numeral first word).length ≤ word.length + 1 := by
  have hexadecimal {marker : Char} {cs : List Char} :
      (hexadecimal marker cs).length ≤ cs.length + 2 := by
    unfold LexemeReading.hexadecimal
    dsimp only
    split <;> exact Nat.add_le_add_right (List.takeWhile_prefix _).length_le 2
  unfold numeral
  split
  · exact hexadecimal
  · exact hexadecimal
  · rw [length_decimal]
    exact (Numeral.prefix_text (first :: word)).length_le

theorem length_variableName_le : (variableName word).length ≤ word.length + 1 := by
  unfold variableName
  split
  · exact Nat.succ_le_succ (List.takeWhile_prefix _).length_le
  · exact Nat.le_add_left _ _

theorem length_symbol_le : (symbol first word).length ≤ word.length + 1 := by
  unfold symbol
  split
  · rename_i entry
    have ahead := List.find?_some entry
    exact (List.isPrefixOf_iff_prefix.mp ahead).length_le
  · exact Nat.zero_le _

/-- A lexeme is spelled with characters that are ahead. -/
theorem length_ofChars_le (cs : List Char) : (ofChars cs).length ≤ cs.length := by
  cases cs with
  | nil => exact Nat.le_refl _
  | cons first word =>
      rw [ofChars, startingWith]
      split
      · exact length_numeral_le
      · split
        · unfold string
          split
          · rename_i found
            obtain ⟨body, behind, rfl, taken⟩ := exists_quote_of_readString? found
            simp only [LexemeReading.found, taken, List.length_cons, List.length_append]
            omega
          · exact Nat.le_refl _
        · split
          · exact length_variableName_le
          · split
            · exact (List.takeWhile_prefix _).length_le
            · exact length_symbol_le

end LexemeReading

/-! ## Comments -/

section Comments

namespace CommentReading

variable {reading : CommentReading}

theorem ofChars_hash (cs : List Char) :
    ofChars ('#' :: cs) =
      if cs.head? = some '[' then .absent
      else .comment ((cs.takeWhile fun c => !isLineEnd c).length + 1) := by
  cases cs with
  | nil => rfl
  | cons ch cs =>
      by_cases bracket : ch = '['
      · subst bracket
        rfl
      · simp [ofChars, bracket]

/-- Behind any other character there is no comment. -/
theorem ofChars_absent
    (hash : ch ≠ '#')
    (slash : ch = '/' → rest.head? ≠ some '/' ∧ rest.head? ≠ some '*') :
    ofChars (ch :: rest) = .absent := by
  by_cases isSlash : ch = '/'
  · obtain ⟨line, block⟩ := slash isSlash
    subst isSlash
    cases rest with
    | nil => rfl
    | cons next rest =>
        simp only [List.head?_cons, ne_eq, Option.some.injEq] at line block
        simp [ofChars, line, block]
  · simp [ofChars, hash, isSlash]

/-- A comment takes characters that are ahead. -/
theorem length_le (found : ofChars word = .comment length) : length ≤ word.length := by
  unfold ofChars at found
  split at found
  · cases found
  · cases found
    exact Nat.succ_le_succ (List.takeWhile_prefix _).length_le
  · cases found
    exact Nat.succ_le_succ (Nat.succ_le_succ (List.takeWhile_prefix _).length_le)
  · split at found <;> cases found
    rename_i tail closed
    exact Nat.succ_le_succ (Nat.succ_le_succ (length_blockCommentTail?_le closed))
  · cases found

/-- A slash alone starts no comment. -/
theorem head?_ne_of_slash
    (read : ofChars ('/' :: rest) = reading)
    (closed : reading ≠ .unterminated)
    (short : ∀ length, reading = .comment length → length ≤ 1) :
    rest.head? ≠ some '/' ∧ rest.head? ≠ some '*' := by
  constructor <;> intro marked <;> obtain ⟨more, rfl⟩ := List.head?_eq_some_iff.mp marked
  · subst read
    exact absurd (short _ rfl) (by simp)
  · rw [ofChars] at read
    split at read
    · subst read
      exact absurd (short _ rfl) (by simp)
    · exact absurd read.symm closed

/--
A comment that ends inside a text is the same with something else behind the text, and where there
is none there is none either, if the second character opens alike and a line that ends inside the
text ends there as well.
-/
theorem ofChars_exchange
    (read : ofChars (ch :: (word ++ rest)) = reading)
    (closed : reading ≠ .unterminated)
    (fits : ∀ length, reading = .comment length → length ≤ word.length + 1)
    (second : ∀ mark ∈ ['[', '/', '*'],
      (word ++ rest').head? = some mark ↔ (word ++ rest).head? = some mark)
    (line : ∀ word : List Char,
      ((word ++ rest).takeWhile fun c => !isLineEnd c).length ≤ word.length →
        (word ++ rest').takeWhile (fun c => !isLineEnd c) =
          (word ++ rest).takeWhile fun c => !isLineEnd c) :
    ofChars (ch :: (word ++ rest')) = reading := by
  have bracketed := second '[' (by decide)
  have slashed := second '/' (by decide)
  have starred := second '*' (by decide)
  by_cases hash : ch = '#'
  · subst hash
    rw [ofChars_hash] at read
    simp only [ofChars_hash, bracketed]
    split at read
    · rename_i bracket
      rw [if_pos bracket, read]
    · rename_i other
      subst read
      rw [if_neg other, line word (Nat.le_of_succ_le_succ (fits _ rfl))]
  · by_cases plain : ch = '/' → (word ++ rest).head? ≠ some '/' ∧ (word ++ rest).head? ≠ some '*'
    · rw [ofChars_absent hash plain] at read
      rw [ofChars_absent hash (by simpa only [ne_eq, slashed, starred]), read]
    · obtain ⟨rfl, marked⟩ := Classical.not_imp.mp plain
      cases word with
      | nil => exact absurd (head?_ne_of_slash read closed fits) marked
      | cons next word =>
          rw [List.cons_append] at read marked ⊢
          by_cases doubled : next = '/'
          · subst doubled read
            have inside := Nat.le_of_succ_le_succ (Nat.le_of_succ_le_succ (fits _ rfl))
            rw [ofChars, ofChars, line word inside]
          · obtain rfl : next = '*' := by simpa [doubled] using marked
            rw [ofChars] at read ⊢
            split at read
            · rename_i tail
              subst read
              have inside := Nat.le_of_succ_le_succ (Nat.le_of_succ_le_succ (fits _ rfl))
              rw [blockCommentTail?_append (blockCommentTail?_of_append tail inside)]
            · exact absurd read.symm closed

/--
A comment that ends inside a text is a comment of the text, and where there is none there is none in
the text, unless the text is the character that starts one.
-/
theorem ofChars_of_append
    (read : ofChars (word ++ rest) = reading)
    (closed : reading ≠ .unterminated)
    (fits : ∀ length, reading = .comment length → length ≤ word.length)
    (other : reading = .absent → word ≠ ['#']) :
    ofChars word = reading := by
  rcases word with _ | ⟨ch, _ | ⟨next, word⟩⟩
  · cases reading with
    | absent => rfl
    | comment length => exact absurd (fits length rfl) (Nat.not_le.mpr (length_pos read).1)
    | unterminated => exact absurd rfl closed
  · rw [List.singleton_append] at read
    by_cases hash : ch = '#'
    · subst hash
      rw [ofChars_hash] at read
      split at read
      · exact absurd rfl (other read.symm)
      · subst read
        rw [List.eq_nil_of_length_eq_zero (Nat.le_zero.mp (Nat.le_of_succ_le_succ (fits _ rfl)))]
        rfl
    · have plain : ch = '/' → rest.head? ≠ some '/' ∧ rest.head? ≠ some '*' := by
        rintro rfl
        exact head?_ne_of_slash read closed fits
      rw [ofChars_absent hash plain] at read
      rw [ofChars_absent hash fun _ => ⟨by simp, by simp⟩, read]
  · have alone := @ofChars_exchange rest [] (next :: word) ch reading read closed fits
      (fun _ _ => Iff.rfl) fun word inside => by rw [List.append_nil, takeWhile_of_append inside]
    rwa [List.append_nil] at alone

end CommentReading

end Comments

end EmbeddedMarkup
