import EmbeddedMarkup.Proofs.Expression.Conditions
import EmbeddedMarkup.Proofs.Markup.Stages

/-!
# Stages of reading host expressions

The readers of host expressions go from one place to the next, over tokens and over the elements
that are operands, so reading arrives at every element and at every hole in it.  The faults that
they find in tokens are accounted for by what lies in front of the token, and those of markup by the
stages of markup.
-/

namespace EmbeddedMarkup

open Cursor TokenStream

variable {first : Stage} {origin c : Cursor} {modes : ModeStack}

/-! ## Tokens -/

/-- A comment in front of a token that has no end is left open. -/
theorem leavesCommentOpen_of_ofChars
    {cs : List Char}
    (unended : CommentReading.ofChars cs = .unterminated) :
    LeavesCommentOpen cs := by
  unfold CommentReading.ofChars at unended
  split at unended <;> try cases unended
  split at unended <;> cases unended
  rename_i open_
  exact leavesCommentOpen_of_blockCommentTail? open_

/-- A lexeme that cannot be read is a string that is left open, or nothing is left open. -/
theorem LexemeReading.isString_of_ofChars
    {cs : List Char}
    {cause : LexicalCause}
    (failed : (ofChars cs).outcome = .error cause) :
    cause = .unterminatedString ∧ (∃ quote rest, (quote = '\'' ∨ quote = '"') ∧
        cs = quote :: rest ∧ readString? quote rest = none) ∨
      cause ≠ .unterminatedString ∧ cause ≠ .unterminatedComment := by
  cases cs with
  | nil => cases failed
  | cons first rest =>
      rw [ofChars, startingWith] at failed
      split at failed
      · unfold numeral hexadecimal decimal at failed
        split at failed
        all_goals
          dsimp only at failed
          try split at failed
          all_goals cases failed <;> simp
      · split at failed
        · rename_i isQuote
          unfold string at failed
          split at failed <;> cases failed
          rename_i unended
          exact .inl ⟨rfl, first, rest, isQuote, rfl, unended⟩
        · split at failed
          · unfold variableName at failed
            split at failed <;> cases failed
            simp
          · split at failed
            · cases failed
            · unfold symbol at failed
              split at failed <;> cases failed
              simp

/-- The lexeme at a cursor leaves a string open, or nothing. -/
theorem Cause.isOpenAt_lexical
    {cause : LexicalCause}
    (faces : FacesToken first origin c)
    (failed : (LexemeReading.ofChars c.rest).outcome = .error cause) :
    (Cause.lexical cause).Fits c ∧ (Cause.lexical cause).IsOpenAt first origin c := by
  rcases LexemeReading.isString_of_ofChars failed with
    ⟨rfl, quote, rest, isQuote, ahead, unended⟩ | ⟨noString, noComment⟩
  · have plain : quote ≠ '\\' := by
      rcases isQuote with rfl | rfl <;> decide
    have scanned : quotedTail? quote rest = none := by
      rw [quotedTail?_eq_map_readString? plain, unended]
      rfl
    have leaves := leavesStringOpen_of_quotedTail? (isQuote.imp_right .inl) scanned
    refine ⟨?_, faces, ahead ▸ leaves⟩
    rw [Cause.Fits, LexicalCause.Fits, Opens, ahead]
    rcases isQuote with rfl | rfl
    · exact ⟨"'", by simp, rest, rfl⟩
    · exact ⟨"\"", by simp, rest, rfl⟩
  · cases cause with
    | unterminatedString => exact absurd rfl noString
    | unterminatedComment => exact absurd rfl noComment
    | _ => exact ⟨trivial, trivial⟩

/-- Reading has come to a place in an expression where it arrived, and accounts for its faults. -/
def Conditions.accounting (first : Stage) (origin : Cursor) : Conditions where
  modes modes := modes.frames ≠ []
  place expected c := ∃ start level elements,
    Arrives first origin .expression start ∧ ComesTo level start elements expected c
  fault := Fault.IsAccountedFor first origin

theorem Ending.Meets.accountsFor
    {α : Type}
    {P : Cursor → Prop}
    {Good : α → Cursor → Prop}
    {outcome : Outcome P α}
    (meets : Ending.Meets outcome (.accounting first origin) Good) :
    outcome.AccountsFor first origin := by
  intro fault after failed
  subst failed
  cases meets with
  | failure accounted => exact accounted

namespace Conditions

variable {expected : Expected}

theorem le_of_place (there : (accounting first origin).place expected c) : origin ≤ c := by
  obtain ⟨_, _, _, arrives, comes⟩ := there
  exact Cursor.le_trans arrives.le comes.le

theorem StartsToken.origin_le (starts : (accounting first origin).StartsToken c) : origin ≤ c := by
  obtain ⟨_, _, there, skipped⟩ := starts
  exact Cursor.le_trans (le_of_place there) (le_of_skipTrivia skipped)

theorem place_of_arrives
    (arrives : Arrives first origin .expression c) :
    (accounting first origin).place .operand c :=
  ⟨c, 0, [], arrives, .connective, .refl, rfl⟩

/-- A fault in a token is that of a comment in front of it, or of the lexeme that it starts. -/
theorem isAccountedFor_unread
    {fault : LexicalFault}
    (there : (accounting first origin).place expected c)
    (failed : (readToken c).outcome = .error fault) :
    (Fault.ofLexical fault).IsAccountedFor first origin := by
  obtain ⟨d, gap, trivia, passes, skipped⟩ := exists_trivia c
  have reached : origin ≤ d := Cursor.le_trans (le_of_place there) passes.le
  obtain ⟨start, level, elements, arrives, comes⟩ := there
  have faces : FacesToken first origin d :=
    ⟨start, level, elements, expected, c, gap, arrives, comes, passes, trivia⟩
  unfold readToken at failed
  rcases skipped with skipped | ⟨unended, skipped⟩
  · rw [skipped] at failed
    dsimp only [tokenAt] at failed
    split at failed <;> cases failed
    rename_i cause outcome
    exact ⟨d, reached, rfl, Cause.isOpenAt_lexical faces outcome⟩
  · rw [skipped] at failed
    cases failed
    have leaves := leavesCommentOpen_of_ofChars unended
    exact ⟨d, reached, rfl, @HostTextCause.LeavesOpen.opens .unterminatedComment _ leaves, faces,
      leaves⟩

theorem passTokens_accounting : (accounting first origin).PassTokens where
  behind {_ _ _ token} there read admitted := by
    obtain ⟨start, level, elements, arrives, comes⟩ := there
    exact ⟨start, level, elements, arrives, comes.token ⟨token.span, read⟩ admitted⟩
  unread := isAccountedFor_unread
  grammar _ starts := by
    obtain ⟨start, starts, same⟩ := starts
    exact ⟨start, starts.origin_le, same, trivial, trivial⟩

/-! ## Expressions -/

/-- Behind an element that is an operand reading goes on. -/
theorem place_behind_markup
    {start stop : Cursor}
    {level : Nat}
    {element : Element Expression}
    (there : (accounting first origin).place expected c)
    (allowed : expected.allowsMarkup = true)
    (skipped : skipTrivia c = ⟨.ok (), start⟩)
    (markup : startsMarkup start.rest = true)
    (reads : Reads level (.element element) start stop) :
    (accounting first origin).place .connective stop := by
  obtain ⟨whole, levels, elements, arrives, comes⟩ := there
  exact ⟨whole, max levels level, _, arrives,
    (comes.mono (Nat.le_max_left _ _)).markup skipped allowed markup
      (reads.mono (Nat.le_max_right _ _))⟩

theorem passExpressions_accounting
    (whole : first.IsWhole) :
    (accounting first origin).PassExpressions where
  toPassTokens := passTokens_accounting
  charged := id
  exited := id
  refused starts refused := by
    obtain ⟨same, none⟩ := ModeStack.opensNoTag_enterExpression _ _ _ _ refused
    exact ⟨_, starts.origin_le, same, fun refuses => absurd refuses none, trivial⟩
  markup {remembers modes expected c start} there allowed skipped markup proper holes := by
    have arrived : Arrives first origin .element start := by
      obtain ⟨whole, level, elements, arrives, comes⟩ := there
      exact .operand arrives comes allowed skipped markup
    have accounts : (hostBehind remembers start).AccountsFor first origin := by
      refine ⟨follows_hostBehind _ _, ?_⟩
      intro inner inside ahead proper arrives
      exact (holes inner inside ahead proper (place_of_arrives arrives)).accountsFor
    have element := @accountsFor_readElementBehind _ _ _ _ accounts whole modes start
      start.le_refl arrived
    cases read : readElementBehind (hostBehind remembers start) modes start start.le_refl with
    | success value after stop passed =>
        obtain ⟨rfl, reads⟩ := reads_of_readElementBehind accounts.follows proper ⟨passed, read⟩
        exact .success proper (place_behind_markup there allowed skipped markup reads)
    | failure fault after => exact .failure (element fault after read)

end Conditions

/-- Reading an expression accounts for its faults. -/
theorem meets_accounting_readExpression
    {power : Nat}
    {stream : TokenStream}
    (whole : first.IsWhole)
    (proper : modes.frames ≠ [])
    (arrives : Arrives first origin .expression stream.cursor) :
    Ending.Meets (readExpression power modes stream) (.accounting first origin)
      (Conditions.accounting first origin).Read :=
  @meets_readExpression _ (Conditions.passExpressions_accounting whole) power .operand modes stream
    rfl proper (Conditions.place_of_arrives arrives)

/-- The delegate of markup accounts for its faults. -/
theorem accountsFor_hostBehind
    {remembers : Bool}
    {limit : Cursor}
    (whole : first.IsWhole) :
    (hostBehind remembers limit).AccountsFor first origin where
  follows := follows_hostBehind remembers limit
  accounts modes start _ proper arrives :=
    (@meets_accounting_readExpression first origin modes 0 (.fresh remembers start) whole proper
      arrives).toOutcome.accountsFor.weaken

/-- Reading an element accounts for its faults. -/
theorem accountsFor_readElement
    {start : Cursor}
    (whole : first.IsWhole)
    (arrives : Arrives first origin .element start) :
    (readElement hostDelegate modes start).AccountsFor first origin :=
  accountsFor_readElementBehind (accountsFor_hostBehind whole) whole arrives

end EmbeddedMarkup
