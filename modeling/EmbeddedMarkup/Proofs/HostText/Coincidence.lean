import EmbeddedMarkup.Proofs.HostText.Scanning
import EmbeddedMarkup.Proofs.Markup.Copy

/-!
# Strings and comments that end alike

Strings are passed over by the scanner of host text and read by the lexer of expressions.  Block
comments are passed over by both, and are looked for once more behind an opening brace in content.
Each of these loops is written for itself.  Wherever one of them starts, all of them find the same
end, or all of them report at the same place that there is none.
-/

namespace EmbeddedMarkup

open Cursor

variable {c stop : Cursor} {ch quote : Char} {rest : List Char} {start : Bool}

/-! ## Units -/

namespace HostScanner

/-- A scanner passes over the unit ahead of it, up to another place. -/
def Takes (scanner stop : HostScanner) : Prop :=
  ∃ ch rest unit, scanner.cursor.rest = ch :: rest ∧ isBlank ch = false ∧
    hostAhead scanner.expressionStart ch rest = .pass unit ∧
    stop = ⟨scanner.cursor.advanceBy (unit.tail + 1), unit.expressionNext⟩

/-- What is found from a place in front of a unit is what is found behind the unit. -/
theorem Takes.next_eq {scanner stop : HostScanner} (takes : scanner.Takes stop) :
    scanner.next = stop.next := by
  obtain ⟨ch, rest, unit, ahead, visible, pass, rfl⟩ := takes
  exact next_pass ahead visible pass

/-- A unit without its end is reported at its start. -/
theorem next_unterminated
    {cause : HostTextCause}
    (ahead : c.rest = ch :: rest)
    (visible : isBlank ch = false)
    (open_ : hostAhead start ch rest = .unterminated cause) :
    next ⟨c, start⟩ = (.error ⟨cause, c.position⟩, ⟨c.advanceBy c.size, start⟩) := by
  have here := skipBlanks_of_peek? (peek?_eq_some_iff.mpr ⟨rest, ahead⟩) visible
  rw [next_of_unterminated (by rwa [here]) open_, here]

end HostScanner

/-- The scanner reports, at a cursor, what is said in a message, and stops at the end of the
text. -/
def Cursor.ScannerReports (c : Cursor) (message : String) : Prop :=
  ∀ start, ∃ cause : HostTextCause, cause.message = message ∧
    HostScanner.next ⟨c, start⟩ = (.error ⟨cause, c.position⟩, ⟨c.advanceBy c.size, start⟩)

/-- A reading reports, at the cursor where it started, what is said in a message, and stops at the
end of the text. -/
def LexicalReading.Reports
    {α : Type}
    (reading : LexicalReading α)
    (c : Cursor)
    (message : String) : Prop :=
  ∃ fault, reading = ⟨.error fault, c.advanceBy c.size⟩ ∧
    fault.cause.message = message ∧ fault.span.position = c.position

/-! ## Strings -/

namespace Cursor

/-- The string ahead of a cursor ends at `stop`, for the scanner and for the lexer. -/
structure StringEnds (c : Cursor) (quote : Char) (stop : Cursor) : Prop where
  /-- It ends with the first quote that is not escaped. -/
  spelled : ∃ body, IsQuotedBody quote body ∧ c.Passes (quote :: (body ++ [quote])) stop
  scanner : ∀ start, HostScanner.Takes ⟨c, start⟩ ⟨stop, false⟩
  lexer : ∃ value, readToken c = ⟨.ok ⟨.string value, c.spanTo stop⟩, stop⟩

/-- The string ahead of a cursor has no end, and the scanner and the lexer report the same. -/
structure StringLacksEnd (c : Cursor) : Prop where
  scanner : c.ScannerReports "Unterminated string"
  lexer : (readToken c).Reports c "Unterminated string"

end Cursor

/-- What starts with a quote is read as a string. -/
theorem ofChars_quote (isQuote : quote = '\'' ∨ quote = '"') :
    LexemeReading.ofChars (quote :: rest) = LexemeReading.string quote rest := by
  rcases isQuote with rfl | rfl <;> rfl

/-- What starts with a quote is a string for a scanner. -/
theorem hostAhead_quote (isQuote : quote = '\'' ∨ quote = '"') :
    hostAhead start quote rest = stringAhead quote rest := by
  rcases isQuote with rfl | rfl <;> cases start <;> rfl

/-- No trivia is skipped in front of a quote. -/
theorem readToken_quote (isQuote : quote = '\'' ∨ quote = '"') (ahead : c.peek? = some quote) :
    readToken c = tokenAt c := by
  have still : skipTrivia c = ⟨.ok (), c⟩ := by
    rcases isQuote with rfl | rfl <;>
      exact skipTrivia_eq_self ahead (by decide) (by decide) (by decide)
  rw [readToken, still]

/-- In front of a quote the scanner and the lexer find the same end of the string, or none. -/
theorem stringEnds_or_lacksEnd
    (isQuote : quote = '\'' ∨ quote = '"')
    (ahead : c.peek? = some quote) :
    (∃ stop, c.StringEnds quote stop) ∨ c.StringLacksEnd := by
  have plain : isBlank quote = false ∧ quote ≠ '\\' := by
    rcases isQuote with rfl | rfl <;> decide
  obtain ⟨rest, chars⟩ := peek?_eq_some_iff.mp ahead
  have same := @quotedTail?_eq_map_readString? quote rest plain.2
  have read : readToken c = tokenAt c := readToken_quote isQuote ahead
  rw [tokenAt, chars, ofChars_quote isQuote, LexemeReading.string] at read
  cases closed : readString? quote rest with
  | some reading =>
      left
      rw [closed] at same read
      obtain ⟨body, behind, isBody, spelled, length⟩ :=
        (quotedTail?_eq_some_iff plain.2).mp same
      refine ⟨c.advanceBy (reading.length + 1), ⟨body, isBody, ?_⟩, fun start => ?_, _, read⟩
      · have passes := @passes_advanceBy c (quote :: (body ++ [quote])) behind
          (by rw [chars, spelled]; simp)
        rwa [List.length_cons, List.length_append, List.length_singleton, ← length] at passes
      · refine ⟨quote, rest, ⟨reading.length, false⟩, chars, plain.1, ?_, rfl⟩
        rw [hostAhead_quote isQuote, stringAhead, same]
        rfl
  | none =>
      right
      rw [closed] at same read
      have whole : c.size = rest.length + 1 := by rw [size, chars, List.length_cons]
      refine ⟨fun start => ⟨.unterminatedString, rfl, ?_⟩, _, whole ▸ read, rfl, rfl⟩
      refine HostScanner.next_unterminated chars plain.1 ?_
      rw [hostAhead_quote isQuote, stringAhead, same]
      rfl

/-! ## Comments -/

namespace Cursor

/-- The block comment ahead of a cursor ends at `stop`, for all who look for its end. -/
structure CommentEnds (c stop : Cursor) : Prop where
  /-- It ends with the first `*/` behind its `/*`. -/
  spelled : ∃ body, IsCommentBody body ∧
    c.Passes ("/*".toList ++ (body ++ "*/".toList)) stop
  scanner : ∀ start, HostScanner.Takes ⟨c, start⟩ ⟨stop, start⟩
  lexer : ∃ length, CommentReading.ofChars c.rest = .comment length ∧ stop = c.advanceBy length
  trivia : skipTrivia c = skipTrivia stop
  /-- Behind a brace it is the comment in braces if they close behind it. -/
  closed : ∀ brace inside, Cursor.eat? brace '\x7b' = some inside → inside.skipBlanks = c →
    ∀ behind, stop.skipBlanks.eat? '\x7d' = some behind →
      ∃ reached, readComment? brace = .ok (some
        ⟨⟨String.ofList (c.textTo stop), brace.spanTo behind⟩, behind, reached⟩)
  /-- If they do not close there, they hold no comment. -/
  unclosed : ∀ brace inside, Cursor.eat? brace '\x7b' = some inside → inside.skipBlanks = c →
    stop.skipBlanks.eat? '\x7d' = none → readComment? brace = .ok none

/-- The block comment ahead of a cursor has no end, and all who look for it report so. -/
structure CommentLacksEnd (c : Cursor) : Prop where
  /-- There is no `*/` behind its `/*`. -/
  spelled : IsCommentBody (c.rest.drop 2)
  scanner : c.ScannerReports "Unterminated comment"
  lexer : (skipTrivia c).Reports c "Unterminated comment"
  content : ∀ brace inside, Cursor.eat? brace '\x7b' = some inside → inside.skipBlanks = c →
    readComment? brace = .error (.markup .unterminatedComment c.position)

end Cursor

/-- What starts with `/*` is a block comment for a scanner. -/
theorem hostAhead_comment :
    hostAhead start '/' ('*' :: rest) = commentAhead start rest := by
  cases start <;> rfl

/-- A block comment is skipped with the trivia that follows it, unless it has no end. -/
theorem ofChars_comment :
    CommentReading.ofChars ('/' :: '*' :: rest) =
      match blockCommentTail? rest with
      | some length => .comment (length + 2)
      | none => .unterminated := rfl

/-- Trivia in which a comment has no end are reported where the comment opens. -/
theorem skipTrivia_unterminated (open_ : CommentReading.ofChars c.skipBlanks.rest = .unterminated) :
    skipTrivia c =
      ⟨.error ⟨.unterminatedComment,
          c.skipBlanks.spanTo (c.skipBlanks.advanceBy c.skipBlanks.size)⟩,
        c.skipBlanks.advanceBy c.skipBlanks.size⟩ := by
  rw [skipTrivia]
  split <;> rename_i found
  · rw [open_] at found
    cases found
  · rw [open_] at found
    cases found
  · rfl

/-- Braces in which a comment opens hold that comment, no comment, or one without its end. -/
theorem readComment?_eq_error
    {brace : Cursor}
    (opens : brace.peek? = some '\x7b')
    (starts : brace.advance.skipBlanks.startsWith "/*" = true)
    (open_ : blockCommentTail? (brace.advance.skipBlanks.rest.drop 2) = none) :
    readComment? brace =
      .error (.markup .unterminatedComment brace.advance.skipBlanks.position) := by
  unfold readComment?
  split
  · rename_i none
    exact absurd opens (eat?_eq_none_iff.mp none)
  · rename_i opened
    obtain ⟨-, rfl⟩ := eat?_eq_some_iff.mp opened
    simp only [starts, if_true, open_]

section Opened

variable (chars : c.rest = '/' :: '*' :: rest)

include chars

theorem startsWith_comment : c.startsWith "/*" = true := by
  rw [startsWith, List.isPrefixOf_iff_prefix]
  exact ⟨rest, chars.symm⟩

theorem skipBlanks_comment : c.skipBlanks = c :=
  skipBlanks_of_peek? (peek?_eq_some_iff.mpr ⟨_, chars⟩) (by decide)

theorem ofChars_rest_comment :
    CommentReading.ofChars c.rest =
      match blockCommentTail? rest with
      | some length => .comment (length + 2)
      | none => .unterminated := by
  rw [chars, ofChars_comment]

/-- A comment that is closed ends at one place for all who look for its end. -/
theorem commentEnds_of_closed {length : Nat} (closed : blockCommentTail? rest = some length) :
    c.CommentEnds (c.advanceBy (length + 2)) := by
  have starts := startsWith_comment chars
  have still := skipBlanks_comment chars
  have inside : c.rest.drop 2 = rest := by rw [chars]; rfl
  have trivia := ofChars_rest_comment chars
  rw [closed] at trivia
  obtain ⟨body, behind, isBody, spelled, rfl⟩ := blockCommentTail?_eq_some_iff.mp closed
  have passes := @passes_advanceBy c ("/*".toList ++ (body ++ "*/".toList)) behind
    (by rw [chars, spelled]; simp)
  have length : ("/*".toList ++ (body ++ "*/".toList)).length = body.length + 2 + 2 := by
    simp +arith
  rw [length] at passes
  refine ⟨⟨body, isBody, passes⟩, fun start => ?_, ⟨_, trivia, rfl⟩, ?_, ?_, ?_⟩
  · refine ⟨'/', '*' :: rest, ⟨body.length + 2 + 1, start⟩, chars, by decide, ?_, rfl⟩
    rw [hostAhead_comment, commentAhead, closed]
  · have skipped := @skipTrivia_comment c _ (still.symm ▸ trivia)
    rwa [still] at skipped
  · rintro brace inner opened rfl behind' closes
    have entered := lt_of_eat? opened
    obtain ⟨opens, rfl⟩ := eat?_eq_some_iff.mp opened
    have reached : brace.advance ≤
        (brace.advance.skipBlanks.advanceBy (body.length + 2 + 2)).skipBlanks :=
      Cursor.le_trans (le_skipBlanks _) (Cursor.le_trans (le_advanceBy _ _) (le_skipBlanks _))
    refine ⟨Cursor.lt_trans entered (Cursor.lt_of_le_of_lt reached (lt_of_eat? closes)),
      readComment?_eq_some_iff.mpr ⟨opens, starts, _, inside.symm ▸ closed, closes, ?_⟩⟩
    rw [textTo_advanceBy]
  · rintro brace inner opened rfl unclosed
    obtain ⟨opens, rfl⟩ := eat?_eq_some_iff.mp opened
    exact (readComment?_eq_none_iff opens).mpr fun _ => ⟨_, inside.symm ▸ closed, unclosed⟩

/-- A comment that is not closed is reported by all who look for its end. -/
theorem commentLacksEnd_of_unclosed (unclosed : blockCommentTail? rest = none) :
    c.CommentLacksEnd := by
  have starts := startsWith_comment chars
  have still := skipBlanks_comment chars
  have inside : c.rest.drop 2 = rest := by rw [chars]; rfl
  have trivia := ofChars_rest_comment chars
  rw [unclosed] at trivia
  refine ⟨?_, fun start => ⟨.unterminatedComment, rfl, ?_⟩, ?_, ?_⟩
  · rw [inside]
    exact blockCommentTail?_eq_none_iff.mp unclosed
  · refine HostScanner.next_unterminated chars (by decide) ?_
    rw [hostAhead_comment, commentAhead, unclosed]
  · have skipped := @skipTrivia_unterminated c (still.symm ▸ trivia)
    rw [still] at skipped
    exact ⟨_, skipped, rfl, rfl⟩
  · rintro brace inner opened rfl
    obtain ⟨opens, rfl⟩ := eat?_eq_some_iff.mp opened
    exact readComment?_eq_error opens starts (inside.symm ▸ unclosed)

end Opened

/--
In front of `/*` the scanner, the lexer and the reader of braces find the same end of the comment,
or none.
-/
theorem commentEnds_or_lacksEnd (ahead : "/*".toList <+: c.rest) :
    (∃ stop, c.CommentEnds stop) ∨ c.CommentLacksEnd := by
  obtain ⟨rest, chars⟩ := ahead
  have chars : c.rest = '/' :: '*' :: rest := chars.symm
  cases closed : blockCommentTail? rest with
  | some length => exact .inl ⟨_, commentEnds_of_closed chars closed⟩
  | none => exact .inr (commentLacksEnd_of_unclosed chars closed)

/-! ## Both -/

/--
In front of a quote the scanner and the lexer find the same end of the string, or both report that
there is none; and so do they and the reader of braces with a block comment in front of `/*`.
-/
theorem strings_and_comments_end_alike (c : Cursor) :
    (∀ quote, quote = '\'' ∨ quote = '"' → c.peek? = some quote →
      (∃ stop, c.StringEnds quote stop) ∨ c.StringLacksEnd) ∧
    ("/*".toList <+: c.rest → (∃ stop, c.CommentEnds stop) ∨ c.CommentLacksEnd) :=
  ⟨fun _ => stringEnds_or_lacksEnd, commentEnds_or_lacksEnd⟩

/-- A string with two backslashes, one of which escapes nothing, and a comment without its end. -/
theorem strings_and_comments_end_alike_examples :
    ((∃ stop, (Cursor.ofText "'\\q\\''").StringEnds '\'' stop) ∨
      (Cursor.ofText "'\\q\\''").StringLacksEnd) ∧
    ((∃ stop, (Cursor.ofText "/* /").CommentEnds stop) ∨
      (Cursor.ofText "/* /").CommentLacksEnd) :=
  ⟨(strings_and_comments_end_alike (.ofText "'\\q\\''")).1 '\'' (.inl rfl) (by decide),
    (strings_and_comments_end_alike (.ofText "/* /")).2 ⟨" /".toList, by decide⟩⟩

end EmbeddedMarkup
