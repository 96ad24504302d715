import EmbeddedMarkup.Expression.Lexer
import EmbeddedMarkup.Proofs.Expression.Quoting
import EmbeddedMarkup.Proofs.Text.Normalization

/-!
# Spellings of lexemes

A word spells a lexeme when reading the word alone gives the lexeme and takes the whole word.
What is read depends on the characters behind a word only as far as they may continue it.  Blank
space and closing braces continue nothing, so in front of them a word is read as it is read alone.
-/

namespace EmbeddedMarkup

/-- Characters that continue no word. -/
def separators : List Char :=
  [' ', '\t', '\n', '\x0c', '\r', '\x7d']

/-- No separator passes the test. -/
abbrev StopsAtSeparators (p : Char → Bool) : Prop :=
  ∀ ch ∈ separators, p ch = false

/-- Nothing is ahead, or a separator is. -/
def Separated (rest : List Char) : Prop :=
  ∀ ch, rest.head? = some ch → ch ∈ separators

variable {rest word : List Char} {first ch : Char} {p : Char → Bool} {lexeme : Lexeme}

@[simp] theorem separated_nil : Separated [] := by
  intro ch ahead
  cases ahead

@[simp] theorem separated_cons : Separated (ch :: rest) ↔ ch ∈ separators := by
  simp [Separated]

theorem mem_separators_of_isBlank (blank : isBlank ch = true) : ch ∈ separators := by
  simp only [isBlank, Bool.or_eq_true, beq_iff_eq] at blank
  rcases blank with (((rfl | rfl) | rfl) | rfl) | rfl <;> decide

theorem separated_append (blank : Blank word) (separated : Separated rest) :
    Separated (word ++ rest) := by
  cases word with
  | nil => exact separated
  | cons ch word => exact separated_cons.mpr (mem_separators_of_isBlank (blank_cons.mp blank).1)

/-- What is ahead fails a test that no separator passes. -/
theorem Separated.fails
    (separated : Separated (ch :: rest))
    (stops : StopsAtSeparators p) :
    p ch = false :=
  stops ch (separated_cons.mp separated)

theorem Separated.head?_ne
    (separated : Separated rest)
    (other : ch ∉ separators) :
    rest.head? ≠ some ch :=
  fun ahead => other (separated ch ahead)

/-- Taking characters ends in front of separators. -/
theorem takeWhile_append_separated
    (separated : Separated rest)
    (stops : StopsAtSeparators p) :
    (word ++ rest).takeWhile p = word.takeWhile p := by
  induction word with
  | nil =>
      cases rest with
      | nil => rfl
      | cons ch rest => simp [separated.fails stops]
  | cons ch word ih =>
      rw [List.cons_append, List.takeWhile_cons, List.takeWhile_cons, ih]

theorem filter_head?_append_separated
    (separated : Separated rest)
    (stops : StopsAtSeparators p) :
    (word ++ rest).head?.filter p = word.head?.filter p := by
  cases word with
  | nil =>
      cases rest with
      | nil => rfl
      | cons ch rest => simp [separated.fails stops]
  | cons ch word => rfl

/-- Separators do not change whether the first character passes a test that none of them passes. -/
theorem head?_append_separated
    (separated : Separated rest)
    (stops : StopsAtSeparators p) :
    ((word ++ rest).head?.map p).getD false = (word.head?.map p).getD false := by
  have passes (first : Option Char) : (first.map p).getD false = (first.filter p).isSome := by
    cases first <;> simp [Option.isSome_filter]
  rw [passes, passes, filter_head?_append_separated separated stops]

section Numerals

theorem ExponentPart.read?_append (separated : Separated rest) :
    ExponentPart.read? (word ++ rest) = ExponentPart.read? word := by
  cases word with
  | nil =>
      cases rest with
      | nil => rfl
      | cons ch rest =>
          have marker : (ch == 'e' || ch == 'E') = false :=
            @Separated.fails rest ch (fun ch => ch == 'e' || ch == 'E') separated (by decide)
          simp only [Bool.or_eq_false_iff, beq_eq_false_iff_ne] at marker
          simp [read?, marker]
  | cons marker word =>
      have short (sign : Char → Bool) : (word.head?.filter sign).toList.length ≤ word.length := by
        cases word with
        | nil => exact Nat.le_refl _
        | cons ch word =>
            rw [List.head?_cons, Option.filter_some]
            split <;> simp
      rw [List.cons_append, read?, read?, filter_head?_append_separated separated (by decide)]
      dsimp only
      rw [List.drop_append_of_le_length (short _),
        takeWhile_append_separated separated (by decide)]

theorem readFraction?_append (separated : Separated rest) :
    readFraction? (word ++ rest) = readFraction? word := by
  have point : '.' ∉ separators := by decide
  cases word with
  | nil =>
      cases rest with
      | nil => rfl
      | cons ch rest =>
          have other : ch ≠ '.' := fun same => point (same ▸ separated_cons.mp separated)
          simp [readFraction?, other]
  | cons ch word =>
      by_cases same : ch = '.'
      · subst same
        have second : (word ++ rest).head? = some '.' ↔ word.head? = some '.' := by
          cases word with
          | nil => simp [separated.head?_ne point]
          | cons ch word => rfl
        rw [List.cons_append, readFraction?, readFraction?]
        simp only [second, takeWhile_append_separated separated
          (by decide : StopsAtSeparators isDecimalChar)]
      · simp [readFraction?, same]

/-- A fraction is read off the characters ahead. -/
theorem prefix_of_readFraction?
    {fraction : List Char}
    (found : readFraction? word = some fraction) :
    '.' :: fraction <+: word := by
  unfold readFraction? at found
  split at found
  · split at found
    · cases found
    · cases found
      exact (List.prefix_cons_inj '.').mpr <| List.takeWhile_prefix _
  · cases found

/-- What stands in front of the exponent is read off the characters ahead. -/
theorem Numeral.prefix_mantissaText (cs : List Char) :
    mantissaText (Numeral.read cs).whole (Numeral.read cs).fraction <+: cs := by
  have whole : cs.takeWhile isDecimalChar <+: cs := List.takeWhile_prefix _
  simp only [Numeral.read]
  cases found : readFraction? (cs.drop (cs.takeWhile isDecimalChar).length) with
  | none => exact whole
  | some fraction =>
      obtain ⟨behind, ahead⟩ := prefix_of_readFraction? found
      refine ⟨behind, ?_⟩
      rw [mantissaText, List.append_assoc, ahead]
      exact List.prefix_iff_eq_append.mp whole

/-- A numeral is read alike in front of separators. -/
theorem Numeral.read_append (separated : Separated rest) :
    Numeral.read (word ++ rest) = Numeral.read word := by
  have whole : (word ++ rest).takeWhile isDecimalChar = word.takeWhile isDecimalChar :=
    takeWhile_append_separated separated (by decide)
  have ahead : word.takeWhile isDecimalChar <+: word := List.takeWhile_prefix _
  have behindWhole : (word ++ rest).drop (word.takeWhile isDecimalChar).length =
      word.drop (word.takeWhile isDecimalChar).length ++ rest :=
    List.drop_append_of_le_length ahead.length_le
  have behindMantissa := @List.drop_append_of_le_length _ word rest _
    (prefix_mantissaText word).length_le
  simp only [Numeral.read] at behindMantissa
  simp only [Numeral.read, whole, behindWhole, readFraction?_append separated, behindMantissa,
    ExponentPart.read?_append separated]

end Numerals

namespace LexemeReading

theorem hexadecimal_append {marker : Char} (separated : Separated rest) :
    hexadecimal marker (word ++ rest) = hexadecimal marker word := by
  have run : readHexadecimalRun (word ++ rest) = readHexadecimalRun word :=
    takeWhile_append_separated separated (by decide)
  simp only [hexadecimal, run]

/-- A decimal numeral that is read takes the characters that it is written with. -/
theorem length_eq_of_decimal {length : Nat} (read : decimal word = .found lexeme length) :
    length = (Numeral.read word).text.length := by
  rw [← length_decimal, read]
  rfl

theorem decimal_append (separated : Separated rest) : decimal (word ++ rest) = decimal word := by
  simp only [decimal, Numeral.read_append separated]

theorem startsNumeral_append (separated : Separated rest) :
    startsNumeral first (word ++ rest) = startsNumeral first word := by
  rw [startsNumeral, head?_append_separated separated (by decide), startsNumeral]

theorem numeral_eq_decimal
    (lower : ¬(first = '0' ∧ rest.head? = some 'x'))
    (upper : ¬(first = '0' ∧ rest.head? = some 'X')) :
    numeral first rest = decimal (first :: rest) := by
  unfold numeral
  split
  · exact absurd ⟨rfl, rfl⟩ lower
  · exact absurd ⟨rfl, rfl⟩ upper
  · rfl

theorem numeral_append (separated : Separated rest) :
    numeral first (word ++ rest) = numeral first word := by
  by_cases lower : first = '0' ∧ word.head? = some 'x'
  · obtain ⟨rfl, second⟩ := lower
    obtain ⟨behind, rfl⟩ := List.head?_eq_some_iff.mp second
    exact hexadecimal_append separated
  · by_cases upper : first = '0' ∧ word.head? = some 'X'
    · obtain ⟨rfl, second⟩ := upper
      obtain ⟨behind, rfl⟩ := List.head?_eq_some_iff.mp second
      exact hexadecimal_append separated
    · have letter (ch : Char) (other : ch ∉ separators) :
          (word ++ rest).head? = some ch ↔ word.head? = some ch := by
        cases word with
        | nil => simp [separated.head?_ne other]
        | cons ch word => rfl
      rw [numeral_eq_decimal lower upper, numeral_eq_decimal]
      · exact @decimal_append rest (first :: word) separated
      · rwa [letter 'x' (by decide)]
      · rwa [letter 'X' (by decide)]

theorem variableName_append (separated : Separated rest) :
    variableName (word ++ rest) = variableName word := by
  rw [variableName, head?_append_separated separated (by decide),
    takeWhile_append_separated separated (by decide), variableName]

theorem word_append (separated : Separated rest) :
    LexemeReading.word (word ++ rest) = LexemeReading.word word := by
  rw [LexemeReading.word, takeWhile_append_separated separated (by decide), LexemeReading.word]

/-- A string ends with its closing quote, whatever follows. -/
theorem readString?_append
    {quote : Char}
    {reading : StringReading}
    (found : readString? quote word = some reading) :
    readString? quote (word ++ rest) = some reading := by
  fun_induction readString? quote word generalizing reading with
  | case1 => cases found
  | case2 word =>
      rw [List.cons_append, readString?.eq_def]
      simpa using found
  | case3 => cases found
  | case4 escaped word meaning escapes unquoted ih =>
      obtain ⟨inner, innerFound, rfl⟩ := Option.map_eq_some_iff.mp found
      rw [List.cons_append, List.cons_append, readString?.eq_def]
      simp [unquoted, escapes, ih innerFound]
  | case5 escaped word plain unquoted ih =>
      obtain ⟨inner, innerFound, rfl⟩ := Option.map_eq_some_iff.mp found
      have behind := ih innerFound
      rw [List.cons_append] at behind
      rw [List.cons_append, List.cons_append, readString?.eq_def]
      simp [unquoted, plain, behind]
  | case6 ch word unquoted visible ih =>
      obtain ⟨inner, innerFound, rfl⟩ := Option.map_eq_some_iff.mp found
      rw [List.cons_append, readString?.eq_def]
      simp [unquoted, visible, ih innerFound]

theorem string_append
    {quote : Char}
    (found : (string quote word).outcome = .ok lexeme) :
    string quote (word ++ rest) = string quote word := by
  unfold string at found ⊢
  split at found
  · rename_i reading closed
    rw [readString?_append closed]
  · cases found

/-- No symbol goes on with a separator. -/
theorem not_mem_separators_of_mem_tail_spelling :
    ∀ entry ∈ symbolSpellings, ∀ ch ∈ entry.1.toList.tail, ch ∉ separators := by
  decide

/-- A text without separators reaches into none. -/
theorem isPrefixOf_append_separated
    {text : List Char}
    (separated : Separated rest)
    (solid : ∀ ch ∈ text, ch ∉ separators) :
    text.isPrefixOf (word ++ rest) = text.isPrefixOf word := by
  induction text generalizing word with
  | nil => rfl
  | cons ch text ih =>
      obtain ⟨here, behind⟩ := List.forall_mem_cons.mp solid
      cases word with
      | nil =>
          cases rest with
          | nil => rfl
          | cons next rest =>
              have other : ch ≠ next := by
                rintro rfl
                exact here (separated_cons.mp separated)
              simp [List.isPrefixOf, other]
      | cons next word => simp [List.isPrefixOf, ih behind]

theorem symbol_append (separated : Separated rest) :
    symbol first (word ++ rest) = symbol first word := by
  have alike : ∀ entry ∈ symbolSpellings, entry.1.toList.isPrefixOf (first :: (word ++ rest)) =
      entry.1.toList.isPrefixOf (first :: word) := by
    intro entry member
    have solid := not_mem_separators_of_mem_tail_spelling entry member
    cases spelled : entry.1.toList with
    | nil => rfl
    | cons ch text =>
        rw [spelled] at solid
        rw [List.tail_cons] at solid
        simp [List.isPrefixOf, isPrefixOf_append_separated separated solid]
  rw [symbol, ← List.head?_filter, List.filter_congr alike, List.head?_filter, symbol]

/-- A lexeme is read alike in front of separators. -/
theorem startingWith_append
    (separated : Separated rest)
    (found : (startingWith first word).outcome = .ok lexeme) :
    startingWith first (word ++ rest) = startingWith first word := by
  unfold startingWith at found ⊢
  rw [startsNumeral_append separated, numeral_append separated, variableName_append separated,
    ← List.cons_append, word_append separated, symbol_append separated]
  split
  · rfl
  · rename_i other
    rw [if_neg other] at found
    split
    · rename_i quote
      rw [if_pos quote] at found
      exact string_append found
    · rfl

end LexemeReading

/-- Reading the word alone gives the lexeme and takes the whole word. -/
structure Spells (word : List Char) (lexeme : Lexeme) : Prop where
  nonempty : word ≠ []
  read : LexemeReading.ofChars word = .found lexeme word.length

namespace Spells

/-- In front of separators a word is read as it is read alone. -/
theorem ofChars_append (spells : Spells word lexeme) (separated : Separated rest) :
    LexemeReading.ofChars (word ++ rest) = .found lexeme word.length := by
  obtain ⟨nonempty, read⟩ := spells
  cases word with
  | nil => contradiction
  | cons first word =>
      rw [List.cons_append, LexemeReading.ofChars]
      rw [LexemeReading.ofChars] at read
      rw [LexemeReading.startingWith_append separated (congrArg LexemeReading.outcome read), read]

/-- No word starts with a separator but the closing brace. -/
theorem visible (spells : Spells (first :: word) lexeme) : isBlank first = false := by
  cases blank : isBlank first with
  | false => rfl
  | true =>
      have read := spells.read
      simp only [isBlank, Bool.or_eq_true, beq_iff_eq] at blank
      rcases blank with (((rfl | rfl) | rfl) | rfl) | rfl <;> cases read

/-- A word that starts with a slash is the slash alone. -/
theorem eq_of_slash (spells : Spells ('/' :: word) lexeme) : word = [] := by
  have slash : LexemeReading.ofChars ('/' :: word) = .found (.symbol .slash) 1 := rfl
  have length : 1 = word.length + 1 := congrArg LexemeReading.length (slash.symm.trans spells.read)
  exact List.eq_nil_of_length_eq_zero (Nat.succ.inj length.symm)

/-- No word starts a comment. -/
theorem uncommented (spells : Spells word lexeme) (separated : Separated rest) :
    CommentReading.ofChars (word ++ rest) = .absent := by
  cases word with
  | nil => exact absurd rfl spells.nonempty
  | cons first word =>
      by_cases hash : first = '#'
      · subst hash
        cases spells.read
      · by_cases slash : first = '/'
        · subst slash
          obtain rfl := spells.eq_of_slash
          have second (ch : Char) (other : ch ∉ separators) : rest.head? ≠ some ch :=
            separated.head?_ne other
          cases rest with
          | nil => rfl
          | cons ch rest =>
              have slash := second '/' (by decide)
              have star := second '*' (by decide)
              simp only [List.head?_cons, ne_eq, Option.some.injEq] at slash star
              simp [CommentReading.ofChars, slash, star]
        · simp [CommentReading.ofChars, hash, slash]

end Spells

section Numbers

theorem takeWhile_eq_self (passes : ∀ ch ∈ word, p ch = true) : word.takeWhile p = word := by
  simpa using @List.takeWhile_append_of_pos _ p word [] passes

theorem forall_mem_takeWhile (word : List Char) (p : Char → Bool) :
    ∀ ch ∈ word.takeWhile p, p ch = true :=
  List.all_eq_true.mp List.all_takeWhile

/-- Taking characters ends in front of one that fails the test. -/
theorem takeWhile_append_of_head?
    (passes : ∀ ch ∈ word, p ch = true)
    (ends : ∀ ch, rest.head? = some ch → p ch = false) :
    (word ++ rest).takeWhile p = word := by
  rw [List.takeWhile_append_of_pos passes]
  cases rest with
  | nil => simp
  | cons ch rest => simp [ends ch rfl]

/-- The parts of an exponent are what they should be. -/
structure ExponentPart.WellFormed (part : ExponentPart) : Prop where
  marker : part.marker = 'e' ∨ part.marker = 'E'
  sign : ∀ ch, part.sign = some ch → (ch == '+' || ch == '-') = true
  nonempty : part.digits ≠ []
  digits : ∀ ch ∈ part.digits, ch.isDigit = true

theorem ExponentPart.wellFormed_of_read?
    {part : ExponentPart}
    (found : read? word = some part) :
    part.WellFormed := by
  unfold read? at found
  split at found
  · cases found
  · split at found
    · rename_i marker
      dsimp only at found
      split at found
      · cases found
      · rename_i some_digit
        cases found
        exact {
          marker := marker
          sign := fun ch signed => (Option.filter_eq_some_iff.mp signed).2
          nonempty := fun none => some_digit (List.isEmpty_iff.mpr none)
          digits := forall_mem_takeWhile _ _ }
    · cases found

/-- An exponent is read off its own text, and digits behind it belong to it too. -/
theorem ExponentPart.read?_text_append {part : ExponentPart} (wellFormed : part.WellFormed) :
    read? (part.text ++ word) =
      some { part with digits := part.digits ++ word.takeWhile Char.isDigit } := by
  obtain ⟨marker, sign, digits⟩ := part
  obtain ⟨isMarker, isSign, nonempty, areDigits⟩ := wellFormed
  have signs : (sign.toList ++ (digits ++ word)).head?.filter (fun ch => ch == '+' || ch == '-') =
      sign := by
    cases sign with
    | some ch => simpa using isSign ch rfl
    | none =>
        cases digits with
        | nil => contradiction
        | cons ch digits =>
            have digit : ch.isDigit = true := areDigits ch List.mem_cons_self
            have plus : ch ≠ '+' := by
              rintro rfl
              cases digit
            have minus : ch ≠ '-' := by
              rintro rfl
              cases digit
            simp [plus, minus]
  rw [text, List.cons_append, List.append_assoc, read?, if_pos isMarker]
  simp only [signs, List.drop_left, List.takeWhile_append_of_pos areDigits, List.isEmpty_iff,
    List.append_eq_nil_iff, nonempty, false_and, if_false]

/-- An exponent is read off its own text. -/
theorem ExponentPart.read?_text {part : ExponentPart} (wellFormed : part.WellFormed) :
    read? part.text = some part := by
  simpa using @read?_text_append [] part wellFormed

/-- An exponent is read off the characters ahead. -/
theorem ExponentPart.prefix_text
    {part : ExponentPart}
    (found : read? word = some part) :
    part.text <+: word := by
  unfold read? at found
  split at found
  · cases found
  · rename_i behind
    split at found
    · dsimp only at found
      split at found
      · cases found
      · cases found
        have sign : (behind.head?.filter fun c => c == '+' || c == '-').toList <+: behind := by
          cases behind with
          | nil => exact List.nil_prefix
          | cons ch behind =>
              rw [List.head?_cons, Option.filter_some]
              split
              · exact ⟨behind, rfl⟩
              · exact List.nil_prefix
        obtain ⟨digits, ahead⟩ := @List.takeWhile_prefix _
          (behind.drop (behind.head?.filter fun c => c == '+' || c == '-').toList.length)
          Char.isDigit
        refine (List.prefix_cons_inj _).mpr ⟨digits, ?_⟩
        rw [List.append_assoc, ahead]
        exact List.prefix_iff_eq_append.mp sign
    · cases found

/-- A numeral is read off the characters ahead. -/
theorem Numeral.prefix_text (cs : List Char) : (Numeral.read cs).text <+: cs := by
  have mantissa := prefix_mantissaText cs
  unfold text
  cases found : (Numeral.read cs).exponent with
  | none => simpa using mantissa
  | some part =>
      obtain ⟨behind, ahead⟩ := ExponentPart.prefix_text found
      refine ⟨behind, ?_⟩
      simp only [Option.map_some, Option.getD_some]
      rw [List.append_assoc, ahead]
      exact List.prefix_iff_eq_append.mp mantissa

/-- The parts of a numeral are what they should be. -/
structure Numeral.WellFormed (numeral : Numeral) : Prop where
  whole : ∀ ch ∈ numeral.whole, isDecimalChar ch = true
  fraction : ∀ digits, numeral.fraction = some digits → ∀ ch ∈ digits, isDecimalChar ch = true
  exponent : ∀ part, numeral.exponent = some part → part.WellFormed

theorem Numeral.wellFormed_read (cs : List Char) : (Numeral.read cs).WellFormed where
  whole := forall_mem_takeWhile _ _
  fraction := by
    intro digits found
    simp only [Numeral.read] at found
    unfold readFraction? at found
    split at found
    · split at found
      · cases found
      · cases found
        exact forall_mem_takeWhile _ _
    · cases found
  exponent := fun _ => ExponentPart.wellFormed_of_read?

/-- Without a point there is no fraction. -/
theorem readFraction?_eq_none {tail : List Char} (pointless : tail.head? ≠ some '.') :
    readFraction? tail = none := by
  unfold readFraction?
  split
  · exact absurd rfl pointless
  · rfl

/-- A fraction is all its digits and separators. -/
theorem readFraction?_digits
    {digits tail : List Char}
    (areDigits : ∀ ch ∈ digits, isDecimalChar ch = true)
    (stops : ∀ ch, tail.head? = some ch → isDecimalChar ch = false)
    (pointless : tail.head? ≠ some '.') :
    readFraction? ('.' :: (digits ++ tail)) = some digits := by
  have single : (digits ++ tail).head? ≠ some '.' := by
    cases digits with
    | nil => exact pointless
    | cons ch digits =>
        intro ahead
        cases ahead
        cases areDigits '.' List.mem_cons_self
  rw [readFraction?, if_neg single, takeWhile_append_of_head? areDigits stops]

/-- A numeral is read off its own text. -/
theorem Numeral.read_text {numeral : Numeral} (wellFormed : numeral.WellFormed) :
    Numeral.read numeral.text = numeral := by
  obtain ⟨whole, fraction, exponent⟩ := numeral
  obtain ⟨isWhole, isFraction, isExponent⟩ := wellFormed
  have behind : ExponentPart.read? ((exponent.map ExponentPart.text).getD []) = exponent := by
    cases exponent with
    | none => rfl
    | some part => exact ExponentPart.read?_text (isExponent part rfl)
  have marked : ∀ ch, ((exponent.map ExponentPart.text).getD []).head? = some ch →
      ch = 'e' ∨ ch = 'E' := by
    intro ch ahead
    cases exponent with
    | none => cases ahead
    | some part =>
        cases ahead
        exact (isExponent part rfl).marker
  rw [text]
  dsimp only
  generalize (exponent.map ExponentPart.text).getD [] = tail at *
  have stops : ∀ ch, tail.head? = some ch → isDecimalChar ch = false := by
    intro ch ahead
    rcases marked ch ahead with rfl | rfl <;> rfl
  have pointless : tail.head? ≠ some '.' := by
    intro ahead
    rcases marked '.' ahead with same | same <;> cases same
  cases fraction with
  | none =>
      simp only [read, mantissaText, takeWhile_append_of_head? isWhole stops, List.drop_left,
        readFraction?_eq_none pointless, behind]
  | some digits =>
      have first : (whole ++ '.' :: (digits ++ tail)).takeWhile isDecimalChar = whole := by
        apply takeWhile_append_of_head? isWhole
        intro ch point
        cases point
        rfl
      have split : mantissaText whole (some digits) ++ tail = whole ++ '.' :: (digits ++ tail) := by
        simp [mantissaText]
      rw [read, split, first]
      simp only [List.drop_left, readFraction?_digits (isFraction digits rfl) stops pointless]
      rw [← split, List.drop_left, behind]

end Numbers

/-- Every symbol is spelled by its spelling. -/
theorem spells_symbol (kind : Symbol) : Spells kind.spelling.toList (.symbol kind) where
  nonempty := by cases kind <;> decide
  read := by cases kind <;> rfl

/-- The lexeme is a number. -/
def Lexeme.isNumber : Lexeme → Bool
  | .int _ | .float _ => true
  | _ => false

section Readings

variable {length : Nat}

namespace LexemeReading

theorem isNumber_of_numeral
    (found : (numeral first rest).outcome = .ok lexeme) :
    lexeme.isNumber = true := by
  have hexadecimal_number {marker : Char} {behind : List Char}
      (found : (hexadecimal marker behind).outcome = .ok lexeme) : lexeme.isNumber = true := by
    unfold hexadecimal at found
    dsimp only at found
    split at found <;> cases found
    rfl
  unfold numeral at found
  split at found
  · exact hexadecimal_number found
  · exact hexadecimal_number found
  · unfold decimal at found
    dsimp only at found
    split at found <;> cases found <;> rfl

/-- What a lexeme that starts with a character was read as. -/
theorem startingWith_cases
    (found : startingWith first rest = .found lexeme length) :
    (startsNumeral first rest = true ∧ numeral first rest = .found lexeme length ∧
      lexeme.isNumber = true) ∨
    (∃ value, lexeme = .string value) ∨
    (variableName rest = .found lexeme length) ∨
    ((isIdentifierStart first || first == '\\') = true ∧
      LexemeReading.word (first :: rest) = .found lexeme length) ∨
    (∃ kind, lexeme = .symbol kind) := by
  unfold startingWith at found
  split at found
  · rename_i starts
    exact .inl ⟨starts, found, isNumber_of_numeral (congrArg outcome found)⟩
  · split at found
    · unfold string at found
      split at found <;> cases found
      exact .inr (.inl ⟨_, rfl⟩)
    · split at found
      · exact .inr (.inr (.inl found))
      · split at found
        · rename_i start
          exact .inr (.inr (.inr (.inl ⟨start, found⟩)))
        · unfold symbol at found
          split at found <;> cases found
          exact .inr (.inr (.inr (.inr ⟨_, rfl⟩)))

end LexemeReading

/-- The name of a variable or a parameter. -/
structure IsIdentifier (name : List Char) : Prop where
  start : (name.head?.map isIdentifierStart).getD false = true
  chars : ∀ ch ∈ name, isIdentifierChar ch = true

/-- A name or a keyword, which may be qualified with backslashes. -/
structure IsWord (text : List Char) : Prop where
  start : (text.head?.map fun ch => isIdentifierStart ch || ch == '\\').getD false = true
  chars : ∀ ch ∈ text, isNameChar ch = true

/-- A variable is spelled by a `$` and its name. -/
theorem spells_variable (name : IsIdentifier word) :
    Spells ('$' :: word) (.variable (String.ofList word)) where
  nonempty := List.cons_ne_nil _ _
  read := by
    have read : LexemeReading.ofChars ('$' :: word) = LexemeReading.variableName word := rfl
    rw [read, LexemeReading.variableName, if_pos name.start, takeWhile_eq_self name.chars]
    rfl

/-- No letter is a digit. -/
theorem isDigit_eq_false_of_isIdentifierStart
    (start : isIdentifierStart ch = true) :
    ch.isDigit = false := by
  simp only [isIdentifierStart, Bool.or_eq_true, beq_iff_eq] at start
  rcases start with letter | rfl
  · rw [Bool.eq_false_iff, ne_eq, isDigit_iff]
    rw [isAlpha_iff] at letter
    omega
  · decide

/-- What can start a word starts neither a numeral nor a string nor a variable. -/
theorem LexemeReading.startingWith_eq_word
    (start : (isIdentifierStart first || first == '\\') = true) :
    startingWith first rest = LexemeReading.word (first :: rest) := by
  have digit : first.isDigit = false := by
    rcases Bool.or_eq_true_iff.mp start with letter | backslash
    · exact isDigit_eq_false_of_isIdentifierStart letter
    · rw [beq_iff_eq.mp backslash]
      decide
  have other (ch : Char) (none : (isIdentifierStart ch || ch == '\\') = false) : first ≠ ch := by
    rintro rfl
    rw [none] at start
    cases start
  have point : (first == '.') = false := beq_eq_false_iff_ne.mpr (other '.' (by decide))
  simp only [startingWith, startsNumeral, digit, point, other '\'' (by decide),
    other '"' (by decide), other '$' (by decide), start]
  rfl

/-- A word spells itself. -/
theorem spells_word (isWord : IsWord word) :
    Spells word (.word (.ofText (String.ofList word)) (String.ofList word)) := by
  cases word with
  | nil => cases isWord.start
  | cons first word =>
      refine ⟨List.cons_ne_nil _ _, ?_⟩
      rw [LexemeReading.ofChars, LexemeReading.startingWith_eq_word isWord.start,
        LexemeReading.word, takeWhile_eq_self isWord.chars]

/-- A text with backslashes in front of its backslashes and single quotes. -/
def escaped : List Char → List Char
  | [] => []
  | ch :: value =>
      if ch = '\\' ∨ ch = '\'' then '\\' :: ch :: escaped value else ch :: escaped value

/-- A string in single quotes. -/
def singleQuoted (value : List Char) : List Char :=
  '\'' :: (escaped value ++ ['\''])

theorem escaped_eq_escapeQuotes (value : List Char) : escaped value = escapeQuotes '\'' value := by
  induction value with
  | nil => rfl
  | cons ch value ih =>
      rw [escaped, escapeQuotes, List.flatMap_cons, ← escapeQuotes, ← ih]
      by_cases special : ch = '\\' ∨ ch = '\''
      · rw [if_pos special, if_pos special, List.cons_append, List.singleton_append]
      · rw [if_neg special, if_neg special, List.singleton_append]

/-- What is escaped for single quotes is read back. -/
theorem readString?_escaped (value : List Char) :
    readString? '\'' (escaped value ++ ['\'']) = some ⟨value, (escaped value).length + 1⟩ := by
  have written : StringStyle.single.body value = escaped value := by
    rw [escaped_eq_escapeQuotes, StringStyle.body_eq_escapeQuotes fun _ _ => rfl]
    rfl
  rw [← written]
  exact StringStyle.single.readString?_body value []

/-- A string is spelled by its value in single quotes. -/
theorem spells_singleQuoted (value : List Char) :
    Spells (singleQuoted value) (.string (String.ofList value)) where
  nonempty := List.cons_ne_nil _ _
  read := by
    have read : LexemeReading.ofChars (singleQuoted value) =
        LexemeReading.string '\'' (escaped value ++ ['\'']) := rfl
    rw [read, LexemeReading.string, readString?_escaped, singleQuoted]
    simp

/-- The name of a variable that is read is an identifier. -/
theorem isIdentifier_of_read
    {name : String}
    (found : LexemeReading.ofChars word = .found (.variable name) length) :
    IsIdentifier name.toList := by
  cases word with
  | nil => cases found
  | cons first rest =>
      rcases LexemeReading.startingWith_cases found with
        ⟨_, _, number⟩ | ⟨_, other⟩ | named | ⟨_, other⟩ | ⟨_, other⟩
      · cases number
      · cases other
      · unfold LexemeReading.variableName at named
        split at named
        · rename_i start
          cases named
          rw [String.toList_ofList]
          refine ⟨?_, forall_mem_takeWhile _ _⟩
          cases rest with
          | nil => exact start
          | cons ch rest =>
              rw [List.takeWhile_cons, if_pos (isIdentifierChar_of_isIdentifierStart start)]
              exact start
        · cases named
      · cases other
      · cases other

/-- The text of a word that is read is a word. -/
theorem isWord_of_read
    {kind : WordKind}
    {text : String}
    (found : LexemeReading.ofChars word = .found (.word kind text) length) :
    IsWord text.toList ∧ kind = .ofText text := by
  cases word with
  | nil => cases found
  | cons first rest =>
      rcases LexemeReading.startingWith_cases found with
        ⟨_, _, number⟩ | ⟨_, other⟩ | named | ⟨start, worded⟩ | ⟨_, other⟩
      · cases number
      · cases other
      · unfold LexemeReading.variableName at named
        split at named <;> cases named
      · cases worded
        refine ⟨?_, rfl⟩
        rw [String.toList_ofList]
        refine ⟨?_, forall_mem_takeWhile _ _⟩
        have continues : isNameChar first = true := by
          simp only [isNameChar, Bool.or_eq_true] at start ⊢
          exact start.imp_left isIdentifierChar_of_isIdentifierStart
        rw [List.takeWhile_cons, if_pos continues]
        exact start
      · cases other

/-- A hexadecimal numeral is read off its own text. -/
theorem spells_take_of_hexadecimal
    {marker : Char}
    {behind : List Char}
    (isMarker : marker = 'x' ∨ marker = 'X')
    (found : LexemeReading.hexadecimal marker behind = .found lexeme length) :
    Spells (('0' :: marker :: behind).take length) lexeme := by
  have run : readHexadecimalRun (readHexadecimalRun behind) = readHexadecimalRun behind :=
    takeWhile_eq_self (forall_mem_takeWhile _ _)
  have slice : behind.take (readHexadecimalRun behind).length = readHexadecimalRun behind :=
    (List.prefix_iff_eq_take.mp (List.takeWhile_prefix _)).symm
  have again : LexemeReading.hexadecimal marker (readHexadecimalRun behind) =
      .found lexeme ((readHexadecimalRun behind).length + 2) := by
    unfold LexemeReading.hexadecimal at found ⊢
    rw [run]
    dsimp only at found ⊢
    split at found <;> cases found
    rename_i valid
    rw [if_neg valid]
  have taken : length = (readHexadecimalRun behind).length + 2 := by
    unfold LexemeReading.hexadecimal at found
    dsimp only at found
    split at found <;> cases found
    rfl
  rw [taken, List.take_succ_cons, List.take_succ_cons, slice]
  refine ⟨List.cons_ne_nil _ _, ?_⟩
  rcases isMarker with rfl | rfl <;> exact again

/-- The text of a numeral starts like a numeral. -/
theorem exists_text_of_startsNumeral
    (starts : LexemeReading.startsNumeral first rest = true) :
    ∃ text, (Numeral.read (first :: rest)).text = first :: text ∧ text <+: rest ∧
      LexemeReading.startsNumeral first text = true := by
  simp only [LexemeReading.startsNumeral, Bool.or_eq_true, Bool.and_eq_true, beq_iff_eq] at starts
  have nonempty := Numeral.length_text_read_pos starts
  have ahead := Numeral.prefix_text (first :: rest)
  cases written : (Numeral.read (first :: rest)).text with
  | nil => simp [written] at nonempty
  | cons ch text =>
      rw [written] at ahead
      obtain ⟨rfl, inside⟩ := List.cons_prefix_cons.mp ahead
      refine ⟨text, rfl, inside, ?_⟩
      rcases starts with digit | ⟨rfl, digit⟩
      · simp [LexemeReading.startsNumeral, digit]
      · cases rest with
        | nil => cases digit
        | cons second rest =>
            have isDigit : second.isDigit = true := digit
            have pointless : second ≠ '.' := by
              rintro rfl
              cases isDigit
            cases text with
            | nil =>
                simp [Numeral.text, Numeral.read, Numeral.mantissaText, readFraction?, pointless,
                  isDecimalChar, isDigit] at written
            | cons ch text =>
                obtain ⟨rfl, -⟩ := List.cons_prefix_cons.mp inside
                simp [LexemeReading.startsNumeral, isDigit]

/-- A decimal numeral is read off its own text. -/
theorem spells_take_of_decimal
    (starts : LexemeReading.startsNumeral first rest = true)
    (lower : ¬(first = '0' ∧ rest.head? = some 'x'))
    (upper : ¬(first = '0' ∧ rest.head? = some 'X'))
    (found : LexemeReading.decimal (first :: rest) = .found lexeme length) :
    Spells ((first :: rest).take length) lexeme := by
  obtain ⟨text, written, inside, startsText⟩ := exists_text_of_startsNumeral starts
  have head {ch : Char} (ahead : text.head? = some ch) : rest.head? = some ch := by
    obtain ⟨more, rfl⟩ := List.head?_eq_some_iff.mp ahead
    obtain ⟨behind, rfl⟩ := inside
    rfl
  have again : LexemeReading.decimal (first :: text) = LexemeReading.decimal (first :: rest) := by
    simp only [LexemeReading.decimal, ← written, Numeral.read_text (Numeral.wellFormed_read _)]
  have whole : length = (first :: text).length := by
    rw [← written]
    exact LexemeReading.length_eq_of_decimal found
  have slice : (first :: rest).take length = first :: text := by
    rw [whole]
    exact (List.prefix_iff_eq_take.mp (List.cons_prefix_cons.mpr ⟨rfl, inside⟩)).symm
  rw [slice]
  refine ⟨List.cons_ne_nil _ _, ?_⟩
  rw [LexemeReading.ofChars, LexemeReading.startingWith, if_pos startsText,
    LexemeReading.numeral_eq_decimal (fun zero => lower ⟨zero.1, head zero.2⟩)
      (fun zero => upper ⟨zero.1, head zero.2⟩), again, found, whole]

/-- The text that a number is read from spells it. -/
theorem spells_take_of_number
    (found : LexemeReading.ofChars word = .found lexeme length)
    (number : lexeme.isNumber = true) :
    Spells (word.take length) lexeme := by
  cases word with
  | nil =>
      cases found
      cases number
  | cons first rest =>
      rcases LexemeReading.startingWith_cases found with
        ⟨starts, numeral, -⟩ | ⟨_, rfl⟩ | named | ⟨_, worded⟩ | ⟨_, rfl⟩
      · by_cases lower : first = '0' ∧ rest.head? = some 'x'
        · obtain ⟨rfl, second⟩ := lower
          obtain ⟨behind, rfl⟩ := List.head?_eq_some_iff.mp second
          exact spells_take_of_hexadecimal (.inl rfl) numeral
        · by_cases upper : first = '0' ∧ rest.head? = some 'X'
          · obtain ⟨rfl, second⟩ := upper
            obtain ⟨behind, rfl⟩ := List.head?_eq_some_iff.mp second
            exact spells_take_of_hexadecimal (.inr rfl) numeral
          · rw [LexemeReading.numeral_eq_decimal lower upper] at numeral
            exact spells_take_of_decimal starts lower upper numeral
      · cases number
      · unfold LexemeReading.variableName at named
        split at named <;> cases named
        cases number
      · cases worded
        cases number
      · cases number

/-- A number that is read has a spelling. -/
theorem exists_spells_of_read
    (found : LexemeReading.ofChars word = .found lexeme length)
    (number : lexeme.isNumber = true) :
    ∃ spelling, Spells spelling lexeme :=
  ⟨_, spells_take_of_number found number⟩

end Readings

end EmbeddedMarkup
