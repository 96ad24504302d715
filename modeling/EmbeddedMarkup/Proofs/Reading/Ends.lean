import EmbeddedMarkup.Proofs.HostText.Units
import EmbeddedMarkup.Proofs.Markup.Copy

/-!
# What phrases end with

A phrase ends with a character of a token or of a tag.  Such a character is not blank, so it is no
part of a line break, and if it is a point no other point follows it: a numeral that ends with its
point is not followed by one, and the symbols made of points end no phrase.
-/

namespace EmbeddedMarkup

open Cursor

variable {c d e : Cursor} {ch : Char} {text rest : List Char} {p : Char → Bool} {lexeme : Lexeme}
  {length : Nat}

/-! ## Lexemes -/

/-- A run of characters that no separator and no point is among ends with one of them. -/
theorem EndsVisibly.of_run
    (stops : StopsAtSeparators p)
    (pointless : p '.' = false)
    (nonempty : text ≠ [])
    (run : ∀ ch ∈ text, p ch = true) :
    EndsVisibly text rest := by
  refine of_forall nonempty fun ch member => ⟨isBlank_eq_false_of_stops stops (run ch member), ?_⟩
  rintro rfl
  rw [run '.' member] at pointless
  cases pointless

/-- Neither the end of the input nor a symbol of points ends a phrase. -/
def Lexeme.endsPhrase : Lexeme → Bool
  | .endOfInput | .symbol .dot | .symbol .ellipsis => false
  | _ => true

/-- The digits of an exponent end it. -/
theorem ExponentPart.WellFormed.endsVisibly
    {part : ExponentPart}
    (wellFormed : part.WellFormed) :
    EndsVisibly part.text rest := by
  have digits : EndsVisibly part.digits rest :=
    .of_run (p := Char.isDigit) (by decide) (by decide) wellFormed.nonempty wellFormed.digits
  exact digits.append (part.marker :: part.sign.toList)

/-- A numeral ends with a digit, a separator of digits or a point with no other point behind it. -/
theorem Numeral.endsVisibly
    {cs : List Char}
    (ahead : (Numeral.read cs).text ++ rest = cs)
    (nonempty : (Numeral.read cs).text ≠ []) :
    EndsVisibly (Numeral.read cs).text rest := by
  obtain ⟨isWhole, isFraction, isExponent⟩ := Numeral.wellFormed_read cs
  have run {digits : List Char} (some_digit : digits ≠ [])
      (decimal : ∀ ch ∈ digits, isDecimalChar ch = true) : EndsVisibly digits rest :=
    .of_run (p := isDecimalChar) (by decide) (by decide) some_digit decimal
  cases exponent : (Numeral.read cs).exponent with
  | some part =>
      rw [text, exponent]
      exact (isExponent part exponent).endsVisibly.append _
  | none =>
      cases fraction : (Numeral.read cs).fraction with
      | none =>
          have whole : (Numeral.read cs).text = (Numeral.read cs).whole := by
            simp [text, exponent, fraction, mantissaText]
          rw [whole] at nonempty ⊢
          exact run nonempty isWhole
      | some digits =>
          have whole : (Numeral.read cs).text = (Numeral.read cs).whole ++ '.' :: digits := by
            simp [text, exponent, fraction, mantissaText]
          rw [whole]
          cases digits with
          | cons ch digits =>
              have ends := run (List.cons_ne_nil ch digits) (isFraction _ fraction)
              exact (ends.append ['.']).append _
          | nil =>
              refine ⟨_, '.', rfl, rfl, fun _ point => ?_⟩
              have read : readFraction? (cs.drop (Numeral.read cs).whole.length) = some [] :=
                fraction
              have behind : cs.drop (Numeral.read cs).whole.length = '.' :: rest := by
                have split := congrArg (List.drop (Numeral.read cs).whole.length) ahead
                rw [whole, List.append_assoc, List.drop_left] at split
                exact split.symm
              rw [behind, readFraction?, if_pos point] at read
              cases read

/-- Behind the `0x` of a hexadecimal numeral a digit or a separator of digits is its last
character. -/
theorem endsVisibly_readHexadecimalRun
    (nonempty : readHexadecimalRun text ≠ []) :
    EndsVisibly (readHexadecimalRun text) rest :=
  .of_run (p := fun c => isHexDigit c || c == '_') (by decide) (by decide) nonempty
    (forall_mem_takeWhile _ _)

theorem exists_endsVisibly_of_hexadecimal
    {marker : Char}
    (ahead : c.rest = '0' :: marker :: text)
    (read : LexemeReading.hexadecimal marker text = .found lexeme length) :
    ∃ spelled, c.Passes spelled (c.advanceBy length) ∧
      EndsVisibly spelled (c.advanceBy length).rest := by
  have taken : length = (readHexadecimalRun text).length + 2 ∧ readHexadecimalRun text ≠ [] := by
    unfold LexemeReading.hexadecimal at read
    dsimp only at read
    split at read
    · cases read
    · rename_i digits
      cases read
      refine ⟨rfl, fun none => digits ?_⟩
      simp [none, withoutSeparators]
  have run : readHexadecimalRun text <+: text := List.takeWhile_prefix _
  obtain ⟨behind, split⟩ := run
  have spelled : c.rest = ('0' :: marker :: readHexadecimalRun text) ++ behind := by
    rw [ahead, List.cons_append, List.cons_append, split]
  rw [taken.1]
  exact ⟨_, passes_advanceBy spelled,
    (endsVisibly_readHexadecimalRun taken.2).append ['0', marker]⟩

theorem exists_endsVisibly_of_numeral
    (ahead : c.rest = ch :: text)
    (starts : LexemeReading.startsNumeral ch text = true)
    (read : LexemeReading.numeral ch text = .found lexeme length) :
    ∃ spelled, c.Passes spelled (c.advanceBy length) ∧
      EndsVisibly spelled (c.advanceBy length).rest := by
  have positive := LexemeReading.length_numeral_pos starts
  rw [read] at positive
  unfold LexemeReading.numeral at read
  split at read
  · exact exists_endsVisibly_of_hexadecimal ahead read
  · exact exists_endsVisibly_of_hexadecimal ahead read
  · have taken : length = (Numeral.read c.rest).text.length := by
      rw [ahead]
      exact LexemeReading.length_eq_of_decimal read
    obtain ⟨behind, split⟩ := Numeral.prefix_text c.rest
    have passes := passes_advanceBy split.symm
    subst taken
    refine ⟨_, passes, Numeral.endsVisibly passes.1.symm (List.length_pos_iff.mp positive)⟩

/-- The last characters of symbols are visible, and a point only in the symbols that are points. -/
theorem exists_last_of_spelling :
    ∀ entry ∈ symbolSpellings, (Lexeme.symbol entry.2).endsPhrase = true →
      entry.1.toList ≠ [] ∧ ∀ ch ∈ entry.1.toList, isBlank ch = false ∧ ch ≠ '.' := by
  decide

/-- The text of a lexeme that may end a phrase ends visibly. -/
theorem StartsLexeme.exists_endsVisibly
    (starts : StartsLexeme ch text length lexeme)
    (ahead : c.rest = ch :: text)
    (ends : lexeme.endsPhrase = true) :
    ∃ spelled, c.Passes spelled (c.advanceBy length) ∧
      EndsVisibly spelled (c.advanceBy length).rest := by
  cases starts with
  | number _ starts numeral => exact exists_endsVisibly_of_numeral ahead starts numeral
  | string quote string =>
      unfold LexemeReading.string at string
      split at string <;> cases string
      rename_i reading found
      obtain ⟨body, behind, rfl, taken⟩ := exists_quote_of_readString? found
      have passes := passes_advanceBy (ahead.trans (@List.cons_append _ ch _ behind).symm)
      have visible : isBlank ch = false ∧ ch ≠ '.' := by
        rcases quote with rfl | rfl <;> decide
      rw [taken]
      exact ⟨_, passes, (EndsVisibly.singleton visible.1 visible.2).append (ch :: body)⟩
  | «variable» dollar named =>
      unfold LexemeReading.variableName at named
      split at named <;> cases named
      rename_i letter
      obtain ⟨first, more, rfl⟩ : ∃ first more, text = first :: more := by
        cases text with
        | nil => cases letter
        | cons first more => exact ⟨first, more, rfl⟩
      have nonempty : (first :: more).takeWhile isIdentifierChar ≠ [] := by
        simp [isIdentifierChar_of_isIdentifierStart letter]
      have split : c.rest = (ch :: (first :: more).takeWhile isIdentifierChar) ++
          (first :: more).dropWhile isIdentifierChar := by
        rw [ahead, List.cons_append, List.takeWhile_append_dropWhile]
      exact ⟨_, passes_advanceBy split,
        (EndsVisibly.of_run (p := isIdentifierChar) (by decide) (by decide) nonempty
          (forall_mem_takeWhile _ _)).append [ch]⟩
  | word starts worded =>
      cases worded
      have continues : isNameChar ch = true := by
        simp only [isNameChar, Bool.or_eq_true] at starts ⊢
        exact starts.imp_left isIdentifierChar_of_isIdentifierStart
      have nonempty : (ch :: text).takeWhile isNameChar ≠ [] := by
        simp [continues]
      have split := ahead.trans (@List.takeWhile_append_dropWhile _ isNameChar (ch :: text)).symm
      exact ⟨_, passes_advanceBy split, .of_run (p := isNameChar) (by decide) (by decide) nonempty
        (forall_mem_takeWhile _ _)⟩
  | symbol symbol =>
      obtain ⟨entry, member, ⟨behind, split⟩, -, same, rfl⟩ := exists_entry_of_symbol symbol
      cases same
      obtain ⟨nonempty, visible⟩ := exists_last_of_spelling entry member ends
      exact ⟨_, passes_advanceBy (ahead.trans split.symm), .of_forall nonempty visible⟩

theorem NextLexeme.stopsVisibly
    (next : NextLexeme c lexeme d)
    (ends : lexeme.endsPhrase = true) :
    c.StopsVisibly d := by
  obtain ⟨span, read⟩ := next
  obtain ⟨first, length, skipped, found, rfl, -⟩ := readToken_eq_ok_iff.mp read
  obtain ⟨ch, text, ahead, starts⟩ := exists_startsLexeme found (by rintro rfl; cases ends)
  obtain ⟨spelled, passes, visible⟩ := starts.exists_endsVisibly ahead ends
  exact (StopsVisibly.of_passes passes visible).of_le (le_of_skipTrivia skipped)

/-! ## Phrases -/

/-- The phrase is some text, and no list that points close. -/
def Phrase.isEnded : Phrase → Bool
  | .continuation .. | .accesses .. | .optional .. => false
  | .entries close .. => (Lexeme.symbol close).endsPhrase
  | _ => true

/-- How a phrase may stop other than visibly. -/
def Phrase.Unended (phrase : Phrase) (c d : Cursor) : Prop :=
  match phrase with
  | .continuation .. | .accesses .. | .optional .. => c = d
  | _ => phrase.isEnded = false

/-- The phrase stops visibly, if it stops at all. -/
def Phrase.Stops (phrase : Phrase) (c d : Cursor) : Prop :=
  c.StopsVisibly d ∨ phrase.Unended c d

theorem Phrase.Stops.visibly
    {phrase : Phrase}
    (stops : phrase.Stops c d)
    (ended : phrase.isEnded = true) :
    c.StopsVisibly d := by
  refine stops.resolve_right fun unended => ?_
  cases phrase <;> simp_all [Phrase.Unended, Phrase.isEnded]

/-- An attribute without a value ends with its name. -/
theorem stopsVisibly_attributeName
    {name : List Char}
    (spelled : c.textWhile (!isNameDelimiter ·) = name)
    (nonempty : name ≠ [])
    (valid : attributeNameFault? name = none) :
    c.StopsVisibly (c.advanceBy name.length) := by
  have chars : ∀ ch ∈ name, isMarkupNameChar ch = true := by
    unfold attributeNameFault? at valid
    split at valid
    · cases valid
    · split at valid
      · cases valid
      · rename_i proper
        simp only [Bool.or_eq_true, Bool.not_eq_true', not_or, Bool.not_eq_false,
          List.all_eq_true] at proper
        exact proper.2
  have ahead : name <+: c.rest := spelled ▸ List.takeWhile_prefix _
  obtain ⟨behind, split⟩ := ahead
  exact .of_passes (passes_advanceBy split.symm)
    (.of_run (p := isMarkupNameChar) (by decide) (by decide) nonempty chars)

/-- What goes on behind something visible, or does not go on, stops visibly. -/
theorem stopsVisibly_behind
    (stops : d.StopsVisibly e ∨ d = e)
    (front : c.StopsVisibly d) :
    c.StopsVisibly e := by
  rcases stops with visible | rfl
  · exact visible.of_le (Cursor.le_of_lt front.lt)
  · exact front

variable {level : Nat}

/-- Every phrase stops visibly, unless it is no text. -/
theorem Reads.stops
    {phrase : Phrase}
    (reads : Reads level phrase c d) :
    phrase.Stops c d := by
  induction reads with
  | expression _ _ _ operand continuation =>
      exact .inl (stopsVisibly_behind continuation (operand.visibly rfl))
  | stop | noAccess | absent => exact .inr rfl
  | connect next _ _ _ _ connection continuation =>
      exact .inl (stopsVisibly_behind continuation ((connection.visibly rfl).of_le next.le))
  | binary _ operand => exact .inl (operand.visibly rfl)
  | assign _ _ value => exact .inl (value.visibly rfl)
  | ternary ifTrue next _ _ ifFalse =>
      exact .inl ((ifFalse.visibly rfl).of_le (Cursor.le_trans ifTrue.le next.le))
  | present _ _ _ part => exact .inl (part.visibly rfl)
  | markup skipped _ _ element =>
      exact .inl ((element.visibly rfl).of_le (le_of_skipTrivia skipped))
  | not _ _ next _ inner | negate _ _ next _ inner =>
      exact .inl ((inner.visibly rfl).of_le next.le)
  | unsigned _ _ _ _ _ _ _ primary accesses =>
      exact .inl (stopsVisibly_behind accesses (primary.visibly rfl))
  | @leaf _ lexeme _ _ _ _ _ next leaf =>
      refine .inl (next.stopsVisibly ?_)
      cases lexeme <;> first | rfl | cases leaf
  | name _ next _ => exact .inl (next.stopsVisibly rfl)
  | arrayCall _ next _ opened _ entries =>
      exact .inl ((entries.visibly rfl).of_le (Cursor.le_trans next.le opened.le))
  | array _ next _ entries => exact .inl ((entries.visibly rfl).of_le next.le)
  | function _ next _ function => exact .inl ((function.visibly rfl).of_le next.le)
  | parenthesized next inner closed _ =>
      exact .inl ((closed.stopsVisibly rfl).of_le (Cursor.le_trans next.le inner.le))
  | noParameters next => exact .inl (next.stopsVisibly rfl)
  | lastParameter _ _ maybe identifier read _ closed =>
      exact .inl ((closed.stopsVisibly rfl).of_le (Cursor.le_trans maybe.le
        (Cursor.le_trans identifier.le (le_of_readToken read))))
  | moreParameters _ _ maybe identifier read comma _ list =>
      exact .inl ((list.visibly rfl).of_le (Cursor.le_trans maybe.le (Cursor.le_trans identifier.le
        (Cursor.le_trans (le_of_readToken read) comma.le))))
  | arrowFunction next list arrow _ _ body =>
      exact .inl ((body.visibly rfl).of_le (Cursor.le_trans next.le
        (Cursor.le_trans list.le arrow.le)))
  | plainEntry _ ellipsis _ _ value => exact .inl ((value.visibly rfl).of_le ellipsis.le)
  | keyedEntry _ _ key next _ _ value =>
      exact .inl ((value.visibly rfl).of_le (Cursor.le_trans key.le next.le))
  | @noEntries _ close _ _ _ next =>
      cases ends : (Lexeme.symbol close).endsPhrase with
      | true => exact .inl (next.stopsVisibly ends)
      | false => exact .inr ends
  | @lastEntry _ close _ _ _ _ _ _ _ _ _ item comma closed _ =>
      cases ends : (Lexeme.symbol close).endsPhrase with
      | true =>
          exact .inl ((closed.stopsVisibly ends).of_le item.le)
      | false => exact .inr ends
  | moreEntries _ _ item comma _ _ items =>
      exact items.imp_left (·.of_le (Cursor.le_trans item.le comma.le))
  | plainMember next _ _ => exact .inl (next.stopsVisibly rfl)
  | calledMember next opened _ entries =>
      exact .inl ((entries.visibly rfl).of_le (Cursor.le_trans next.le opened.le))
  | memberAccess next _ member => exact .inl ((member.visibly rfl).of_le next.le)
  | entryAccess next index closed _ =>
      exact .inl ((closed.stopsVisibly rfl).of_le (Cursor.le_trans next.le index.le))
  | callAccess next _ _ entries => exact .inl ((entries.visibly rfl).of_le next.le)
  | staticAccess next _ _ member => exact .inl ((member.visibly rfl).of_le next.le)
  | moreAccesses _ _ access accesses =>
      exact .inl (stopsVisibly_behind accesses (access.visibly rfl))
  | emptyHole closed =>
      exact .inl ((StopsVisibly.of_eat? closed rfl (by decide)).of_le (Cursor.le_skipBlanks _))
  | filledHole _ inner closed _ =>
      exact .inl ((StopsVisibly.of_eat? closed rfl (by decide)).of_le
        (Cursor.le_trans (Cursor.le_skipBlanks _)
          (Cursor.le_trans inner.le (Cursor.le_skipBlanks _))))
  | spread dots inner closed _ =>
      exact .inl ((StopsVisibly.of_eat? closed rfl (by decide)).of_le
        (Cursor.le_trans (Cursor.le_skipBlanks _) (Cursor.le_trans (le_of_eatText? dots)
          (Cursor.le_trans (Cursor.le_skipBlanks _)
            (Cursor.le_trans inner.le (Cursor.le_skipBlanks _))))))
  | quotedValue isQuote _ closed =>
      refine .inl ((StopsVisibly.of_eat? closed ?_ ?_).of_le
        (Cursor.le_trans (Cursor.le_advance _) (Cursor.le_skipWhile _ _)))
      · rcases isQuote with rfl | rfl <;> rfl
      · rcases isQuote with rfl | rfl <;> decide
  | holeValue _ _ hole => exact .inl ((hole.visibly rfl).of_le (Cursor.le_advance _))
  | bareAttribute spelled nonempty valid reached _ =>
      subst reached
      exact .inl (stopsVisibly_attributeName spelled nonempty valid)
  | valuedAttribute _ _ _ equals _ value =>
      exact .inl ((value.visibly rfl).of_le (Cursor.le_trans (Cursor.le_advanceBy _ _)
        (Cursor.le_trans (le_of_skipBlanks_eat? equals) (Cursor.le_skipBlanks _))))
  | headerEnd closed | fragmentHeader closed =>
      exact .inl ((StopsVisibly.of_eat? closed rfl (by decide)).of_le (Cursor.le_skipBlanks _))
  | selfClosingEnd closed =>
      obtain ⟨⟨more, ahead⟩, rfl⟩ := eatText?_eq_some_iff.mp closed
      exact .inl ((StopsVisibly.of_passes (passes_advanceBy ahead.symm)
        ((EndsVisibly.singleton rfl (by decide)).append ['/'])).of_le (Cursor.le_skipBlanks _))
  | spreadItem opened spread _ _ rest =>
      exact .inl ((rest.visibly rfl).of_le
        (Cursor.le_trans (le_of_skipBlanks_eat? opened) spread.le))
  | attributeItem item _ _ rest =>
      exact .inl ((rest.visibly rfl).of_le (Cursor.le_trans (Cursor.le_skipBlanks _) item.le))
  | @namedHeader _ _ _ _ _ _ reached _ _ rest =>
      exact .inl ((rest.visibly rfl).of_le (Cursor.le_trans (Cursor.le_skipBlanks _) reached))
  | selfClosingElement opened _ _ header =>
      exact .inl ((header.visibly rfl).of_le (Cursor.le_of_lt (lt_of_eat? opened)))
  | closedElement opened header _ _ _ content =>
      exact .inl ((content.visibly rfl).of_le
        (Cursor.le_trans (Cursor.le_of_lt (lt_of_eat? opened)) header.le))
  | comment found =>
      obtain ⟨-, -, tail, -, closed, -⟩ := readComment?_eq_some_iff.mp found
      exact .inl ((StopsVisibly.of_eat? closed rfl (by decide)).of_le
        (Cursor.le_trans (Cursor.le_advance _) (Cursor.le_trans (Cursor.le_skipBlanks _)
          (Cursor.le_trans (Cursor.le_advanceBy _ _) (Cursor.le_skipBlanks _)))))
  | hole _ _ _ hole => exact .inl ((hole.visibly rfl).of_le (Cursor.le_advance _))
  | @closeContent _ length _ _ c _ _ found closing =>
      obtain ⟨-, -, marked⟩ := ContentMark.unmarked_of_next found
      obtain ⟨more, ahead⟩ := ContentMark.exists_of_next_closingTag marked
      rw [← rest_advanceBy] at ahead
      obtain ⟨reached, before, behind, -, -, spelled⟩ := closesTag_of_readClosingTag ahead closing
      have passes := passes_textTo reached
      rw [spelled] at passes
      exact .inl ((StopsVisibly.of_passes passes
        ((EndsVisibly.singleton rfl (by decide)).append
          ('<' :: '/' :: (before ++ _ ++ behind)))).of_le (c.le_advanceBy length))
  | elementChild _ element _ _ rest | bracesChild _ element _ _ rest =>
      exact .inl ((rest.visibly rfl).of_le (Cursor.le_trans (Cursor.le_advanceBy _ _) element.le))

/-- A phrase that is some text stops visibly. -/
theorem Reads.stopsVisibly
    {phrase : Phrase}
    (reads : Reads level phrase c d)
    (ended : phrase.isEnded = true) :
    c.StopsVisibly d :=
  reads.stops.visibly ended

end EmbeddedMarkup
