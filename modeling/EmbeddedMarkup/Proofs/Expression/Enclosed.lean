import EmbeddedMarkup.Proofs.Expression.Truncation

/-!
# Texts with something else behind them

What is read in front of a closing brace does not depend on what lies behind the brace, provided
that it ends in front of the brace.  Most lexemes stop at the brace anyway; a string or a comment
may run on over it, and then it does not end in front of it.  Likewise what ends inside a text is
read where nothing is behind the text, and what is read of a whole text is read with a line end and
a closing brace behind it.
-/

namespace EmbeddedMarkup

variable {word rest rest' : List Char} {first ch : Char} {p : Char → Bool} {lexeme : Lexeme}
  {length : Nat}

/--
Behind the text there may be `rest'` instead of `rest`: a closing brace is next both times, or
nothing is left then, and the text does not end between two points, or a line ends then and a
closing brace follows.
-/
inductive Exchanges (word : List Char) : List Char → List Char → Prop
  | brace {rest rest' : List Char} : Exchanges word ('\x7d' :: rest) ('\x7d' :: rest')
  | cut {rest : List Char} :
      (word.getLast? = some '.' → rest.head? ≠ some '.') → Exchanges word rest []
  | enclosed {rest more : List Char} : Exchanges word rest (rest ++ '\n' :: '\x7d' :: more)

/-- A lexeme that ends inside a text is read whatever lies behind a closing brace. -/
theorem LexemeReading.ofChars_brace
    (nonempty : word ≠ [])
    (read : ofChars (word ++ '\x7d' :: rest) = .found lexeme length)
    (fits : length ≤ word.length) :
    ofChars (word ++ '\x7d' :: rest') = .found lexeme length := by
  have alone := ofChars_of_append nonempty (fun _ _ => by simp) read fits
  cases word with
  | nil => contradiction
  | cons first word =>
      rw [ofChars] at alone
      rw [List.cons_append, ofChars, startingWith_append (separated_cons.mpr (by decide))
        (congrArg LexemeReading.outcome alone), alone]

/-- A lexeme that is read of a whole text is read in front of a line end. -/
theorem LexemeReading.ofChars_line
    (read : ofChars word = .found lexeme length)
    (more : lexeme ≠ .endOfInput) :
    ofChars (word ++ '\n' :: rest) = .found lexeme length := by
  cases word with
  | nil =>
      cases read
      exact absurd rfl more
  | cons first word =>
      rw [List.cons_append, ofChars, startingWith_append (separated_cons.mpr (by decide))
        (congrArg LexemeReading.outcome read)]
      exact read

/-- A lexeme that ends inside a text is read with something else behind it too. -/
theorem Exchanges.readsLexeme
    (exchanges : Exchanges word rest rest')
    (read : LexemeReading.ofChars (word ++ rest) = .found lexeme length)
    (more : lexeme ≠ .endOfInput)
    (fits : length ≤ word.length) :
    LexemeReading.ofChars (word ++ rest') = .found lexeme length := by
  by_cases empty : word = []
  · subst empty
    cases rest with
    | nil =>
        cases read
        exact absurd rfl more
    | cons ch rest =>
        have outcome := congrArg LexemeReading.outcome read
        have positive := LexemeReading.length_startingWith_pos outcome
        rw [List.nil_append, LexemeReading.ofChars] at read
        rw [read] at positive
        exact absurd positive (Nat.not_lt.mpr fits)
  · cases exchanges with
    | brace => exact LexemeReading.ofChars_brace empty read fits
    | cut whole =>
        rw [List.append_nil]
        exact LexemeReading.ofChars_of_append empty (fun _ => whole) read fits
    | enclosed =>
        rw [← List.append_assoc]
        exact LexemeReading.ofChars_line read more

/-- A run that ends in front of a character that would continue it ends whatever follows. -/
theorem takeWhile_append_cons
    (continues : p ch = true)
    (fits : ((word ++ ch :: rest).takeWhile p).length ≤ word.length) :
    (word ++ ch :: rest').takeWhile p = (word ++ ch :: rest).takeWhile p := by
  induction word with
  | nil => simp [continues] at fits
  | cons next word ih =>
      cases passes : p next with
      | false => simp [passes]
      | true =>
          simp only [List.cons_append, List.takeWhile_cons_of_pos passes, List.length_cons,
            Nat.add_le_add_iff_right] at fits ⊢
          rw [ih fits]

/-- In front of a brace, a comment that ends there is the same whatever lies behind the brace. -/
theorem CommentReading.ofChars_brace
    {reading : CommentReading}
    (read : ofChars (word ++ '\x7d' :: rest) = reading)
    (closed : reading ≠ .unterminated)
    (fits : ∀ length, reading = .comment length → length ≤ word.length) :
    ofChars (word ++ '\x7d' :: rest') = reading := by
  cases word with
  | nil => exact read
  | cons ch word =>
      refine ofChars_exchange read closed fits (fun mark _ => ?_) fun _ inside =>
        takeWhile_append_cons (by decide) inside
      cases word <;> rfl

/-- A run of characters that are no line end stops in front of one. -/
theorem takeWhile_append_lineEnd :
    (word ++ '\n' :: rest).takeWhile (fun ch => !isLineEnd ch) =
      word.takeWhile fun ch => !isLineEnd ch := by
  induction word with
  | nil => rfl
  | cons ch word ih => rw [List.cons_append, List.takeWhile_cons, List.takeWhile_cons, ih]

/-- A comment of a whole text is the same in front of a line end. -/
theorem CommentReading.ofChars_line
    {reading : CommentReading}
    (read : ofChars word = reading)
    (closed : reading ≠ .unterminated) :
    ofChars (word ++ '\n' :: rest) = reading := by
  cases word with
  | nil =>
      subst read
      rfl
  | cons ch word =>
      rw [← List.append_nil word] at read
      refine ofChars_exchange read closed ?_ (fun mark isMark => ?_) fun _ _ => ?_
      · rintro length rfl
        rw [List.append_nil] at read
        exact length_le read
      · have other : ∀ mark ∈ ['[', '/', '*'], '\n' ≠ mark := by decide
        cases word <;> simp [other mark isMark]
      · rw [List.append_nil, takeWhile_append_lineEnd]

/-- A comment that ends inside a text is read with something else behind it too. -/
theorem Exchanges.readsComment
    {reading : CommentReading}
    (exchanges : Exchanges word rest rest')
    (read : CommentReading.ofChars (word ++ rest) = reading)
    (closed : reading ≠ .unterminated)
    (fits : ∀ length, reading = .comment length → length ≤ word.length)
    (other : reading = .absent → word ≠ ['#']) :
    CommentReading.ofChars (word ++ rest') = reading := by
  cases exchanges with
  | brace => exact CommentReading.ofChars_brace read closed fits
  | cut =>
      rw [List.append_nil]
      exact CommentReading.ofChars_of_append read closed fits other
  | enclosed =>
      rw [← List.append_assoc]
      exact CommentReading.ofChars_line read closed

end EmbeddedMarkup
