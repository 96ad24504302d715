import EmbeddedMarkup.Proofs.HostText.Casts
import EmbeddedMarkup.Proofs.HostText.Reading

/-!
# Scanning from place to place

Behind a text that trails off in a known way, a scanner stands at a known place, with a known
opinion about whether an expression may start there.  From one place that a reader comes to to the
next, it finds nothing but the markup that the reader goes over.
-/

namespace EmbeddedMarkup

open Cursor

variable {c d first : Cursor} {ch : Char} {start : Bool} {length : Nat} {lexeme : Lexeme}
  {trail : Trail} {expected : Expected} {kind : Symbol}

/-- The scanner that has gone over a text up to a place, where the text trails off so. -/
def Trail.scanner (trail : Trail) (c : Cursor) : HostScanner :=
  match trail with
  | minus => if c.peek? = some '-' then ⟨c.advance, false⟩ else ⟨c, true⟩
  | numeral | glued => ⟨c.skipWhile isHostNumberChar, false⟩
  | castOpening =>
      match castTail? c.rest with
      | some length => ⟨c.advanceBy length, true⟩
      | none => ⟨c, true⟩
  | castType => if c.skipInline.peek? = some ')' then ⟨c.skipInline.advance, true⟩ else ⟨c, false⟩
  | _ => ⟨c, trail.expressionStart⟩

/-! ## Where a reader goes on -/

/-- A reader goes on from a place. -/
inductive GoesOn (expected : Expected) (c : Cursor) : Prop
  | token {lexeme : Lexeme} {d : Cursor} :
      NextLexeme c lexeme d →
      expected.admits lexeme = true →
      GoesOn expected c
  | markup {first : Cursor} :
      skipTrivia c = ⟨.ok (), first⟩ →
      expected.allowsMarkup = true →
      startsMarkup first.rest = true →
      GoesOn expected c
  | ended {d : Cursor} :
      NextLexeme c .endOfInput d →
      GoesOn expected c

/-- Text that is neither blank space nor a comment is no trivia. -/
theorem skipTrivia_eq_self
    (ahead : c.peek? = some ch)
    (visible : isBlank ch = false)
    (hash : ch ≠ '#')
    (slash : ch ≠ '/') :
    skipTrivia c = ⟨.ok (), c⟩ := by
  have still := skipBlanks_of_peek? ahead visible
  have absent : CommentReading.ofChars c.skipBlanks.rest = .absent := by
    obtain ⟨rest, ahead⟩ := peek?_eq_some_iff.mp ahead
    rw [still, ahead]
    exact CommentReading.ofChars_absent hash fun same => absurd same slash
  rw [skipTrivia_eq_skipBlanks absent, still]

/-- Markup starts with a bracket. -/
theorem exists_rest_of_startsMarkup
    {cs : List Char}
    (markup : startsMarkup cs = true) :
    ∃ rest, cs = '<' :: rest := by
  unfold startsMarkup at markup
  split at markup
  · exact ⟨_, rfl⟩
  · cases markup

namespace GoesOn

/-- Behind the end of a token, a character of the next one may follow without a gap. -/
theorem cases_of_peek?
    {rest : List Char}
    (goesOn : GoesOn expected c)
    (ahead : c.rest = ch :: rest)
    (visible : isBlank ch = false)
    (hash : ch ≠ '#')
    (slash : ch ≠ '/') :
    (∃ lexeme length, StartsLexeme ch rest length lexeme ∧ expected.admits lexeme = true) ∨
      (expected.allowsMarkup = true ∧ startsMarkup (ch :: rest) = true) := by
  have here := skipTrivia_eq_self (peek?_eq_some_iff.mpr ⟨rest, ahead⟩) visible hash slash
  have starts {lexeme : Lexeme} {d : Cursor} (next : NextLexeme c lexeme d) :
      ∃ length, StartsLexeme ch rest length lexeme := by
    obtain ⟨first, length, skipped, read⟩ := next.read
    rw [here] at skipped
    cases skipped
    rw [ahead] at read
    exact ⟨length, startsLexeme_of_startingWith read⟩
  cases goesOn with
  | token next admitted =>
      obtain ⟨length, starts⟩ := starts next
      exact .inl ⟨_, length, starts, admitted⟩
  | markup skipped allowed markup =>
      rw [here] at skipped
      cases skipped
      rw [ahead] at markup
      exact .inr ⟨allowed, markup⟩
  | ended next =>
      obtain ⟨length, starts⟩ := starts next
      cases starts with
      | number number => cases number

/-- No character beyond ASCII follows. -/
theorem isBeyondAscii_eq_false (goesOn : GoesOn expected c) (ahead : c.peek? = some ch) :
    isBeyondAscii ch = false := by
  obtain ⟨rest, ahead⟩ := peek?_eq_some_iff.mp ahead
  by_cases trivia : isBlank ch = true ∨ ch = '#' ∨ ch = '/'
  · simp only [isBlank, Bool.or_eq_true, beq_iff_eq] at trivia
    rcases trivia with ((((rfl | rfl) | rfl) | rfl) | rfl) | rfl | rfl <;> decide
  · simp only [not_or, Bool.not_eq_true] at trivia
    obtain ⟨visible, hash, slash⟩ := trivia
    rcases goesOn.cases_of_peek? ahead visible hash slash with
      ⟨lexeme, length, starts, -⟩ | ⟨-, markup⟩
    · exact starts.isBeyondAscii
    · obtain ⟨_, same⟩ := exists_rest_of_startsMarkup markup
      cases same
      decide

/-- A character does not follow if it starts only symbols that are not expected. -/
theorem peek?_ne
    (goesOn : GoesOn expected c)
    (mark : ch = '>' ∨ ch = '?' ∨ ch = '+')
    (refused : ∀ entry ∈ symbolSpellings, entry.1.toList.head? = some ch →
      expected.admits (.symbol entry.2) = false) :
    c.peek? ≠ some ch := by
  intro ahead
  obtain ⟨rest, ahead⟩ := peek?_eq_some_iff.mp ahead
  have plain : ch ∈ ['<', '>', '?', '+', '-', ')'] ∧ isBlank ch = false ∧ ch ≠ '#' ∧ ch ≠ '/' ∧
      ch ≠ '<' := by
    rcases mark with rfl | rfl | rfl <;> decide
  obtain ⟨symbol, visible, hash, slash, less⟩ := plain
  rcases goesOn.cases_of_peek? ahead visible hash slash with
    ⟨lexeme, length, starts, admitted⟩ | ⟨-, markup⟩
  · obtain ⟨entry, member, head, rfl⟩ := starts.exists_entry symbol
    rw [refused entry member head] at admitted
    cases admitted
  · simp [startsMarkup, less] at markup

/-- Where an operand is expected, no two `<` follow. -/
theorem not_shift (goesOn : GoesOn .operand c) : ¬['<', '<'] <+: c.rest := by
  rintro ⟨rest, ahead⟩
  rcases goesOn.cases_of_peek? ahead.symm (by decide) (by decide) (by decide) with
    ⟨lexeme, length, starts, admitted⟩ | ⟨-, markup⟩
  · obtain ⟨entry, member, head, rfl⟩ := starts.exists_entry (by decide)
    have refused : ∀ entry ∈ symbolSpellings, entry.1.toList.head? = some '<' →
        Expected.operand.admits (.symbol entry.2) = false := by
      decide
    rw [refused entry member head] at admitted
    cases admitted
  · cases markup

end GoesOn

/-! ## Symbols -/

/-- Behind plain punctuation an expression may start. -/
theorem Trail.scanner_ofSymbol_of_plain
    (plain : ∀ ch ∈ kind.spelling.toList, ch ∈ plainPunctuation) :
    (ofSymbol start kind).scanner d = ⟨d, true⟩ := by
  cases kind <;> first | rfl | exact absurd plain (by decide)

/-- A scanner passes over a `<` that starts a longer symbol. -/
theorem next_less_of_peek?
    (ahead : c.peek? = some '<')
    (next : c.advance.peek? = some ch)
    (plain : ch = '=' ∨ ch = '>')
    (unmarked : start = true → startsMarkup c.rest = false) :
    HostScanner.next ⟨c, start⟩ = HostScanner.next ⟨c.advance.advance, true⟩ := by
  have question : c.advance.peek? ≠ some '?' := by
    rw [next]
    rcases plain with rfl | rfl <;> decide
  have shift : ¬['<', '<'] <+: c.advance.rest := by
    obtain ⟨rest, behind⟩ := peek?_eq_some_iff.mp next
    rw [behind, List.cons_prefix_cons]
    rintro ⟨rfl, -⟩
    rcases plain with same | same <;> cases same
  have isPlain : ch ∈ plainPunctuation := by
    rcases plain with rfl | rfl <;> decide
  rw [HostScanner.next_less ahead unmarked question shift, HostScanner.next_plainChar next isPlain]

/-- A scanner passes over an arrow. -/
theorem next_arrow
    (ahead : c.peek? = some '-')
    (next : c.advance.peek? = some '>') :
    HostScanner.next ⟨c, start⟩ = HostScanner.next ⟨c.advance.advance, true⟩ := by
  have single : c.advance.peek? ≠ some '-' := by
    rw [next]
    decide
  rw [HostScanner.next_sign (.inr rfl) ahead single, HostScanner.next_plainChar next (by decide)]

/-- A scanner passes over a minus sign, with the one behind it if there is no gap. -/
theorem next_minus (ahead : c.peek? = some '-') :
    HostScanner.next ⟨c, start⟩ = HostScanner.next (Trail.minus.scanner c.advance) := by
  by_cases double : c.advance.peek? = some '-'
  · rw [HostScanner.next_doubleMinus ahead double, Trail.scanner, if_pos double]
  · rw [HostScanner.next_sign (.inr rfl) ahead double, Trail.scanner, if_neg double]

/-- A scanner passes over an opening parenthesis, with the cast that it starts. -/
theorem next_leftParen (ahead : c.peek? = some '(') :
    HostScanner.next ⟨c, start⟩ =
      HostScanner.next ((Trail.ofSymbol start .leftParen).scanner c.advance) := by
  cases start with
  | false => exact HostScanner.next_opening ahead fun other => nomatch other
  | true =>
      have trail : Trail.ofSymbol true .leftParen = .castOpening := rfl
      rw [trail, Trail.scanner]
      cases found : castTail? c.advance.rest with
      | none => exact HostScanner.next_opening ahead fun _ => found
      | some length => exact HostScanner.next_cast ahead found

/-- A scanner passes over a symbol that a reader goes over. -/
theorem next_ofSymbol
    (passes : c.Passes kind.spelling.toList d)
    (absent : CommentReading.ofChars c.rest = .absent)
    (unmarked : start = true → startsMarkup c.rest = false)
    (goesOn : GoesOn (Expected.behindSymbol kind) d) :
    HostScanner.next ⟨c, start⟩ = HostScanner.next ((Trail.ofSymbol start kind).scanner d) := by
  by_cases plain : ∀ ch ∈ kind.spelling.toList, ch ∈ plainPunctuation
  · rw [Trail.scanner_ofSymbol_of_plain plain]
    exact HostScanner.next_plain passes (by cases kind <;> decide) plain
  · cases kind with
    | plus =>
        obtain ⟨ahead, rfl⟩ := passes_singleton.mp passes
        exact HostScanner.next_sign (.inl rfl) ahead (goesOn.peek?_ne (by decide) (by decide))
    | minus =>
        obtain ⟨ahead, rfl⟩ := passes_singleton.mp passes
        exact next_minus ahead
    | slash =>
        obtain ⟨ahead, rfl⟩ := passes_singleton.mp passes
        exact HostScanner.next_slash ahead absent
    | less =>
        obtain ⟨ahead, rfl⟩ := passes_singleton.mp passes
        exact HostScanner.next_less ahead unmarked (goesOn.peek?_ne (by decide) (by decide))
          goesOn.not_shift
    | lessOrEqual =>
        obtain ⟨ahead, behind⟩ := passes_cons.mp passes
        obtain ⟨next, rfl⟩ := passes_singleton.mp behind
        exact next_less_of_peek? ahead next (.inl rfl) unmarked
    | coalesce =>
        obtain ⟨ahead, behind⟩ := passes_cons.mp passes
        obtain ⟨next, rfl⟩ := passes_singleton.mp behind
        rw [HostScanner.next_question ahead (by rw [next]; decide)]
        exact HostScanner.next_question next (goesOn.peek?_ne (by decide) (by decide))
    | question =>
        obtain ⟨ahead, rfl⟩ := passes_singleton.mp passes
        exact HostScanner.next_question ahead (goesOn.peek?_ne (by decide) (by decide))
    | arrow =>
        obtain ⟨ahead, behind⟩ := passes_cons.mp passes
        obtain ⟨next, rfl⟩ := passes_singleton.mp behind
        exact next_arrow ahead next
    | nullsafeArrow =>
        obtain ⟨ahead, behind⟩ := passes_cons.mp passes
        obtain ⟨next, behind⟩ := passes_cons.mp behind
        obtain ⟨last, rfl⟩ := passes_singleton.mp behind
        rw [HostScanner.next_question ahead (by rw [next]; decide)]
        exact next_arrow next last
    | leftParen =>
        obtain ⟨ahead, rfl⟩ := passes_singleton.mp passes
        exact next_leftParen ahead
    | rightParen =>
        obtain ⟨ahead, rfl⟩ := passes_singleton.mp passes
        exact HostScanner.next_closing (.inl rfl) ahead
    | rightBracket =>
        obtain ⟨ahead, rfl⟩ := passes_singleton.mp passes
        exact HostScanner.next_closing (.inr rfl) ahead
    | _ => exact absurd (by decide) plain

/-! ## Tokens that stand alone -/

/-- Only an operator that is a word has an operand behind it. -/
theorem exists_binding_of_behind
    {kind : WordKind}
    {text : String}
    (operand : expected.behind (.word kind text) = .operand) :
    ∃ binding, kind.binding? = some binding := by
  cases expected <;> cases kind <;> first | exact ⟨_, rfl⟩ | cases operand

/-- Behind a word an expression may start if the word is a keyword. -/
theorem Trail.scanner_ofWord
    {kind : WordKind}
    {text : String}
    (isWord : kind = .ofText text) :
    (ofWord expected kind text).scanner d = ⟨d, isAmongWords text.toList expressionKeywords⟩ := by
  unfold ofWord
  split
  · rename_i operand
    obtain ⟨binding, connects⟩ := exists_binding_of_behind operand
    subst isWord
    rw [isAmongWords_of_binding? connects]
    rfl
  · split
    · rename_i keyword
      rw [keyword]
      rfl
    · rename_i plain
      rw [Bool.eq_false_iff.mpr plain]
      rfl

/-- A scanner passes over a token that a reader goes over. -/
theorem next_ofLexeme
    (absent : CommentReading.ofChars c.rest = .absent)
    (read : LexemeReading.ofChars c.rest = .found lexeme length)
    (more : lexeme ≠ .endOfInput)
    (unmarked : trail.expressionStart = true → startsMarkup c.rest = false)
    (goesOn : GoesOn (trail.expected.behind lexeme) (c.advanceBy length)) :
    HostScanner.next ⟨c, trail.expressionStart⟩ =
      HostScanner.next ((trail.ofLexeme lexeme).scanner (c.advanceBy length)) := by
  cases lexeme with
  | int value => exact HostScanner.next_number read rfl
  | float value => exact HostScanner.next_number read rfl
  | string value => exact HostScanner.next_string read
  | «variable» name => exact HostScanner.next_variable read
  | word kind text =>
      rw [HostScanner.next_word read fun ch => goesOn.isBeyondAscii_eq_false, Trail.ofLexeme,
        Trail.scanner_ofWord (isWord_of_read read).2]
  | symbol kind =>
      rw [Expected.behind_symbol] at goesOn
      rcases passes_of_symbol read with passes | ⟨rfl, passes⟩
      · exact next_ofSymbol passes absent unmarked goesOn
      · obtain ⟨ahead, behind⟩ := passes_cons.mp passes
        obtain ⟨next, reached⟩ := passes_singleton.mp behind
        rw [reached]
        exact next_less_of_peek? ahead next (.inr rfl) unmarked
  | endOfInput => contradiction

/-! ## Tokens that go on -/

/-- Where there is no gap, no trivia are skipped. -/
theorem eq_of_textTo_eq_nil (reached : c ≤ d) (nothing : c.textTo d = []) : d = c := by
  have passes := passes_textTo reached
  rw [nothing] at passes
  exact passes_nil.mp passes

/-- A token is read where trivia end. -/
theorem read_of_skipTrivia
    (next : NextLexeme c lexeme d)
    (skipped : skipTrivia c = ⟨.ok (), first⟩) :
    ∃ length, LexemeReading.ofChars first.rest = .found lexeme length ∧
      d = first.advanceBy length := by
  obtain ⟨span, read⟩ := next
  obtain ⟨first', length, skipped', found, reached, -⟩ := readToken_eq_ok_iff.mp read
  rw [skipped] at skipped'
  cases skipped'
  exact ⟨length, found, reached⟩

/-- A token that is not the end takes some text. -/
theorem lt_of_skipTrivia
    (next : NextLexeme c lexeme d)
    (skipped : skipTrivia c = ⟨.ok (), first⟩)
    (more : lexeme ≠ .endOfInput) :
    first < d := by
  obtain ⟨length, read, rfl⟩ := read_of_skipTrivia next skipped
  obtain ⟨moves, ahead⟩ := LexemeReading.length_pos (congrArg LexemeReading.outcome read) more
  rw [read] at moves
  exact lt_advanceBy moves ahead

/-- Text that may continue a numeral is no trivia. -/
theorem skipWhile_eq_self_of_gap
    (gap : ∀ ch, c.peek? = some ch → isHostNumberChar ch = true → skipTrivia c ≠ ⟨.ok (), c⟩) :
    c.skipWhile isHostNumberChar = c := by
  apply skipWhile_eq_self
  intro ch ahead
  rw [Bool.eq_false_iff]
  intro continues
  have visible := isBlank_eq_false_of_stops (by decide) continues
  exact gap ch ahead continues (skipTrivia_eq_self ahead visible (by rintro rfl; cases continues)
    (by rintro rfl; cases continues))

/-- A scanner that takes all that may continue a numeral passes over a name. -/
theorem next_skipName
    {kind : WordKind}
    {text : String}
    (read : LexemeReading.ofChars c.rest = .found (.word kind text) length)
    (goesOn : GoesOn (expected.behind (.word kind text)) (c.advanceBy length)) :
    HostScanner.next ⟨c.skipWhile isHostNumberChar, false⟩ =
      HostScanner.next ((Trail.ofGluedWord expected kind text).scanner (c.advanceBy length)) := by
  obtain ⟨ch, rest, ahead, starts, spelled, reached⟩ := word_of_read read
  have passes := c.passes_skipWhile isNameChar
  rw [← spelled, ← reached] at passes
  have chars : ∀ ch ∈ text.toList, isNameChar ch = true := by
    rw [spelled]
    exact forall_mem_takeWhile _ _
  by_cases qualified : '\\' ∈ text.toList
  · have unbound : expected.behind (.word kind text) ≠ .operand := by
      intro operand
      obtain ⟨binding, connects⟩ := exists_binding_of_behind operand
      rw [(isWord_of_read read).2] at connects
      have keyword := isAmongWords_of_binding? connects
      rw [not_keyword_of_backslash qualified] at keyword
      cases keyword
    obtain ⟨run, more, split, unqualified⟩ := List.eq_append_cons_of_mem qualified
    rw [split] at passes chars
    obtain ⟨middle, before, behind⟩ := passes_append.mp passes
    have continues : ∀ ch ∈ run, isHostNumberChar ch = true := by
      intro ch member
      refine isHostNumberChar_of_isNameChar (chars ch (List.mem_append_left _ member)) ?_
      rintro rfl
      exact unqualified member
    have still : middle.skipWhile isHostNumberChar = middle := by
      apply skipWhile_eq_self
      intro ch ahead
      rw [(passes_cons.mp behind).1] at ahead
      cases ahead
      decide
    have read' := ofChars_of_name behind (by decide)
      (fun ch member => chars ch (List.mem_append_right _ member))
      (by rw [reached]; exact fun ch => fails_of_peek?_skipWhile)
    have word := @HostScanner.next_word middle false _ _ _ read'
    rw [← behind.2, String.toList_ofList, not_keyword_of_backslash List.mem_cons_self] at word
    rw [before.skipWhile_eq continues, still, word fun ch => goesOn.isBeyondAscii_eq_false,
      Trail.ofGluedWord, if_neg unbound, if_pos qualified]
    rfl
  · have continues : ∀ ch ∈ text.toList, isHostNumberChar ch = true := by
      intro ch member
      refine isHostNumberChar_of_isNameChar (chars ch member) ?_
      rintro rfl
      exact qualified member
    rw [passes.skipWhile_eq continues, Trail.ofGluedWord, if_neg qualified]
    split <;> rfl

/-- Behind a numeral a scanner takes all that may continue it. -/
theorem Trail.scanner_numeral (numeral : trail = .numeral ∨ trail = .glued) :
    trail.scanner c = ⟨c.skipWhile isHostNumberChar, false⟩ := by
  rcases numeral with rfl | rfl <;> rfl

/-- A token other than a word that may continue a numeral is passed over together with it. -/
theorem next_continuingNumeral
    (numeral : trail = .numeral ∨ trail = .glued)
    (read : LexemeReading.ofChars c.rest = .found lexeme length)
    (admitted : trail.expected.admits lexeme = true)
    (unnamed : ∀ kind name, lexeme ≠ .word kind name)
    (ahead : c.peek? = some ch)
    (continues : isHostNumberChar ch = true) :
    HostScanner.next (trail.scanner c) =
      HostScanner.next ((trail.behind [] lexeme).scanner (c.advanceBy length)) := by
  obtain ⟨rest, ahead⟩ := peek?_eq_some_iff.mp ahead
  have starts := read
  rw [ahead] at starts
  rcases (startsLexeme_of_startingWith starts).of_isHostNumberChar continues with
    number | ⟨kind, name, isWord⟩ | rfl | rfl
  · have behind : trail.behind [] lexeme = .numeral := by
      rcases numeral with rfl | rfl <;> cases lexeme <;> first | rfl | cases number
    rw [behind, Trail.scanner_numeral numeral]
    exact HostScanner.next_skipNumber read number
  · exact absurd isWord (unnamed kind name)
  · rcases numeral with rfl | rfl
    · have point := passes_spelling read (by decide)
      rw [Trail.scanner_numeral (.inl rfl), point.skipWhile_eq (by decide)]
      rfl
    · cases admitted
  · rcases numeral with rfl | rfl <;> cases admitted

/-- Where all trivia are blanks that do not leave the line, they are all such blanks. -/
theorem skipInline_eq
    (skipped : skipTrivia c = ⟨.ok (), first⟩)
    (inline : (c.textTo first).all isInlineBlank = true) :
    c.skipInline = first := by
  have passes := passes_textTo (le_of_skipTrivia skipped)
  rw [skipInline, passes.skipWhile_eq (List.all_eq_true.mp inline)]
  apply skipWhile_eq_self
  intro ch ahead
  have still := (of_skipTrivia skipped).1
  have visible := @fails_of_peek?_skipWhile first ch isBlank
  rw [← skipBlanks, still] at visible
  rw [Bool.eq_false_iff]
  intro blank
  rw [isBlank_of_isInlineBlank blank] at visible
  cases visible ahead

/-- A name of a type that is no part of a cast is a name as any other. -/
theorem scanner_castType
    (expected : Expected)
    {name : String}
    (skipped : skipTrivia c = ⟨.ok (), first⟩)
    (next : NextLexeme c (.word .identifier name) d)
    (inline : (c.textTo first).all isInlineBlank = true)
    (among : isAmongWords name.toList castTypes = true)
    (none : castTail? c.rest = none) :
    Trail.castType.scanner d = (Trail.ofWord expected .identifier name).scanner d := by
  obtain ⟨length, read, rfl⟩ := read_of_skipTrivia next skipped
  obtain ⟨ch, rest, -, -, spelled, reached⟩ := word_of_read read
  have inside := skipInline_eq skipped inline
  have passes := first.passes_skipWhile isNameChar
  rw [← spelled] at passes
  have letters : ∀ ch ∈ name.toList, isIdentifierChar ch = true := by
    intro ch member
    rw [isIdentifierChar, Char.isAlphanum, (isAlpha_of_castType among).2 ch member, Bool.true_or,
      Bool.true_or]
  have ends : ∀ ch, (first.skipWhile isNameChar).peek? = some ch → isIdentifierChar ch = false := by
    intro ch ahead
    have stops := fails_of_peek?_skipWhile ahead
    rw [isNameChar, Bool.or_eq_false_iff] at stops
    exact stops.1
  have open_ : (first.skipWhile isNameChar).skipInline.peek? ≠ some ')' := by
    have castEnd := peek?_ne_of_castTail?_eq_none none
    rw [Cursor.castEnd, inside, passes.textWhile letters ends, passes.skipWhile letters ends]
      at castEnd
    exact castEnd among
  rw [Trail.scanner_ofWord (isWord_of_read read).2, not_keyword_of_castType among, reached,
    Trail.scanner, if_neg open_]

section Step

variable
  (skipped : skipTrivia c = ⟨.ok (), first⟩)
  (keeps : KeepsHostCode c)
  (next : NextLexeme c lexeme d)
  (admitted : trail.expected.admits lexeme = true)
  (certain : trail.doubtful = true → startsMarkup first.rest = false)
  (goesOn : GoesOn (trail.expected.behind lexeme) d)

include skipped keeps next admitted certain goesOn

/-- A scanner that stands at a place passes over the trivia and the token there. -/
theorem next_of_scanner_eq (alone : trail.scanner c = ⟨c, trail.expressionStart⟩) :
    HostScanner.next (trail.scanner c) = HostScanner.next ((trail.ofLexeme lexeme).scanner d) := by
  obtain ⟨length, read, rfl⟩ := read_of_skipTrivia next skipped
  have more : lexeme ≠ .endOfInput := by
    rintro rfl
    revert admitted
    cases trail <;> decide
  rw [alone, keeps.next skipped]
  refine next_ofLexeme (of_skipTrivia skipped).2 read more ?_ goesOn
  intro start
  by_cases doubt : trail.doubtful = true
  · exact certain doubt
  · refine startsMarkup_eq_false skipped (nextLexeme_of_skipTrivia skipped read) ?_
    constructor <;> rintro rfl <;> revert admitted start doubt <;> cases trail <;> decide

/-- A minus sign is passed over together with one in front of it if there is no gap. -/
theorem next_behind_minus (minus : trail = .minus) :
    HostScanner.next (trail.scanner c) =
      HostScanner.next ((trail.behind (c.textTo first) lexeme).scanner d) := by
  subst minus
  by_cases ahead : c.peek? = some '-'
  · have here := skipTrivia_eq_self ahead (by decide) (by decide) (by decide)
    rw [skipped] at here
    cases here
    obtain ⟨length, read, rfl⟩ := read_of_skipTrivia next skipped
    obtain ⟨rest, rest_eq⟩ := peek?_eq_some_iff.mp ahead
    have starts := read
    rw [rest_eq] at starts
    obtain ⟨entry, member, head, rfl⟩ :=
      (startsLexeme_of_startingWith starts).exists_entry (by decide)
    have isMinus : ∀ entry ∈ symbolSpellings, entry.1.toList.head? = some '-' →
        Expected.operand.admits (.symbol entry.2) = true → entry.2 = .minus := by
      decide
    rw [isMinus entry member head admitted] at read ⊢
    have reached := (passes_singleton.mp (passes_spelling read (by decide))).2
    rw [textTo_self, reached, Trail.scanner, if_pos ahead]
    rfl
  · have alone : Trail.minus.scanner c = ⟨c, true⟩ := if_neg ahead
    have apart : Trail.minus.behind (c.textTo first) lexeme = Trail.minus.ofLexeme lexeme := by
      cases lexeme with
      | symbol kind =>
          cases kind with
          | minus =>
              refine if_neg fun nothing => ahead ?_
              obtain rfl := eq_of_textTo_eq_nil (le_of_skipTrivia skipped) nothing
              obtain ⟨length, read, -⟩ := read_of_skipTrivia next skipped
              exact (passes_singleton.mp (passes_spelling read (by decide))).1
          | _ => rfl
      | _ => rfl
    rw [apart]
    exact next_of_scanner_eq skipped keeps next admitted certain goesOn alone

/-- What may continue a numeral is passed over together with one in front of it. -/
theorem next_behind_numeral (numeral : trail = .numeral ∨ trail = .glued) :
    HostScanner.next (trail.scanner c) =
      HostScanner.next ((trail.behind (c.textTo first) lexeme).scanner d) := by
  have alone
      (still : c.skipWhile isHostNumberChar = c)
      (apart : trail.behind (c.textTo first) lexeme = trail.ofLexeme lexeme) :
      HostScanner.next (trail.scanner c) =
        HostScanner.next ((trail.behind (c.textTo first) lexeme).scanner d) := by
    rw [apart]
    refine next_of_scanner_eq skipped keeps next admitted certain goesOn ?_
    rw [Trail.scanner_numeral numeral, still]
    rcases numeral with rfl | rfl <;> rfl
  by_cases gap : c.textTo first = []
  · obtain rfl := eq_of_textTo_eq_nil (le_of_skipTrivia skipped) gap
    obtain ⟨length, read, rfl⟩ := read_of_skipTrivia next skipped
    by_cases word : ∃ kind name, lexeme = .word kind name
    · obtain ⟨kind, name, rfl⟩ := word
      rw [gap, Trail.scanner_numeral numeral]
      rcases numeral with rfl | rfl <;> exact next_skipName read goesOn
    · have unnamed (kind : WordKind) (name : String) : lexeme ≠ .word kind name :=
        fun same => word ⟨kind, name, same⟩
      by_cases continues : ∃ ch, first.peek? = some ch ∧ isHostNumberChar ch = true
      · obtain ⟨ch, ahead, continues⟩ := continues
        rw [gap]
        exact next_continuingNumeral numeral read admitted unnamed ahead continues
      · have still : first.skipWhile isHostNumberChar = first := by
          apply skipWhile_eq_self
          intro ch ahead
          exact Bool.eq_false_iff.mpr fun number => continues ⟨ch, ahead, number⟩
        refine alone still (Trail.behind_of_unjoined numeral unnamed ?_)
        rintro rfl
        have point := passes_singleton.mp (passes_spelling read (by decide))
        exact continues ⟨'.', point.1, rfl⟩
  · have still : c.skipWhile isHostNumberChar = c := by
      apply skipWhile_eq_self_of_gap
      intro ch ahead continues here
      rw [skipped] at here
      cases here
      exact gap (textTo_self c)
    exact alone still (Trail.behind_of_gap numeral gap)

/-- A name of a type may be passed over together with the parenthesis in front of it. -/
theorem next_behind_castOpening (castOpening : trail = .castOpening) :
    HostScanner.next (trail.scanner c) =
      HostScanner.next ((trail.behind (c.textTo first) lexeme).scanner d) := by
  subst castOpening
  cases found : castTail? c.rest with
  | some length =>
      obtain ⟨name, named, skipped', next', among, closed, reached⟩ := of_castTail? found
      rw [skipped] at skipped'
      cases skipped'
      obtain ⟨rfl, rfl⟩ := next.unique next'
      have gap : (c.textTo c.skipInline).all isInlineBlank = true := by
        rw [skipInline, textTo_skipWhile]
        exact List.all_takeWhile
      have trail : Trail.castOpening.behind (c.textTo c.skipInline) (.word .identifier name) =
          .castType := by
        rw [Trail.behind, gap, among]
        rfl
      rw [trail, Trail.scanner, Trail.scanner, found, if_pos closed, ← reached]
  | none =>
      have alone : Trail.castOpening.scanner c = ⟨c, true⟩ := by
        rw [Trail.scanner, found]
      rw [next_of_scanner_eq skipped keeps next admitted certain goesOn alone]
      cases lexeme with
      | word kind name =>
          cases kind with
          | identifier =>
              rw [Trail.behind]
              split
              · rename_i cast
                obtain ⟨inline, among⟩ := Bool.and_eq_true_iff.mp cast
                rw [scanner_castType .item skipped next inline among found]
                rfl
              · rfl
          | _ => rfl
      | _ => rfl

/-- What looks like the end of a cast is passed over together with what is in front of it. -/
theorem next_behind_castType (castType : trail = .castType) :
    HostScanner.next (trail.scanner c) =
      HostScanner.next ((trail.behind (c.textTo first) lexeme).scanner d) := by
  subst castType
  by_cases closed : c.skipInline.peek? = some ')'
  · have here := skipTrivia_skipInline closed (by decide) (by decide) (by decide)
    rw [skipped] at here
    cases here
    obtain ⟨length, read, rfl⟩ := read_of_skipTrivia next skipped
    obtain ⟨rest, rest_eq⟩ := peek?_eq_some_iff.mp closed
    have starts := read
    rw [rest_eq] at starts
    obtain ⟨entry, member, head, rfl⟩ :=
      (startsLexeme_of_startingWith starts).exists_entry (by decide)
    have closes : ∀ entry ∈ symbolSpellings, entry.1.toList.head? = some ')' →
        entry.2 = .rightParen := by
      decide
    rw [closes entry member head] at read ⊢
    have reached := (passes_singleton.mp (passes_spelling read (by decide))).2
    have gap : (c.textTo c.skipInline).all isInlineBlank = true := by
      rw [skipInline, textTo_skipWhile]
      exact List.all_takeWhile
    rw [Trail.behind, if_pos gap, reached, Trail.scanner, if_pos closed]
    rfl
  · have alone : Trail.castType.scanner c = ⟨c, false⟩ := if_neg closed
    have apart :
        Trail.castType.behind (c.textTo first) lexeme = Trail.castType.ofLexeme lexeme := by
      cases lexeme with
      | symbol kind =>
          cases kind with
          | rightParen =>
              refine if_neg fun inline => closed ?_
              obtain ⟨length, read, -⟩ := read_of_skipTrivia next skipped
              rw [skipInline_eq skipped inline]
              exact (passes_singleton.mp (passes_spelling read (by decide))).1
          | _ => rfl
      | _ => rfl
    rw [apart]
    exact next_of_scanner_eq skipped keeps next admitted certain goesOn alone

/-- A scanner goes over trivia and a token from one place to the next. -/
theorem next_behind :
    HostScanner.next (trail.scanner c) =
      HostScanner.next ((trail.behind (c.textTo first) lexeme).scanner d) := by
  cases trail with
  | minus => exact next_behind_minus skipped keeps next admitted certain goesOn rfl
  | numeral => exact next_behind_numeral skipped keeps next admitted certain goesOn (.inl rfl)
  | glued => exact next_behind_numeral skipped keeps next admitted certain goesOn (.inr rfl)
  | castOpening => exact next_behind_castOpening skipped keeps next admitted certain goesOn rfl
  | castType => exact next_behind_castType skipped keeps next admitted certain goesOn rfl
  | _ => exact next_of_scanner_eq skipped keeps next admitted certain goesOn rfl

end Step

/-! ## Markup and the end -/

/-- In front of markup and at the end, a scanner stands at the place itself. -/
theorem scanner_eq_of_apart
    (skipped : skipTrivia c = ⟨.ok (), first⟩)
    (apart : ∀ ch, first.peek? = some ch → ch = '<') :
    trail.scanner c = ⟨c, trail.expressionStart⟩ := by
  have other {place : Cursor} {ch : Char} (ahead : place.peek? = some ch) (differs : ch ≠ '<') :
      skipTrivia c ≠ ⟨.ok (), place⟩ := by
    intro here
    rw [skipped] at here
    cases here
    exact differs (apart ch ahead)
  cases trail with
  | minus =>
      refine if_neg fun ahead => other ahead (by decide) ?_
      exact skipTrivia_eq_self ahead (by decide) (by decide) (by decide)
  | numeral | glued =>
      have still : c.skipWhile isHostNumberChar = c :=
        skipWhile_eq_self_of_gap fun ch ahead number =>
          other ahead (by rintro rfl; cases number)
      rw [Trail.scanner, still]
      rfl
  | castOpening =>
      have none : castTail? c.rest = none := by
        cases found : castTail? c.rest with
        | none => rfl
        | some length =>
            obtain ⟨name, named, skipped', next, -⟩ := of_castTail? found
            obtain ⟨length, read, -⟩ := read_of_skipTrivia next skipped'
            obtain ⟨ch, rest, ahead, starts, -⟩ := word_of_read read
            refine absurd skipped' (other (peek?_eq_some_iff.mpr ⟨rest, ahead⟩) ?_)
            rintro rfl
            cases starts
      rw [Trail.scanner, none]
      rfl
  | castType =>
      refine if_neg fun closed => other closed (by decide) ?_
      exact skipTrivia_skipInline closed (by decide) (by decide) (by decide)
  | _ => rfl

/-- Only a name or a `>` stands directly behind the bracket of a tag. -/
theorem not_prefix_of_startsMarkup
    {rest text : List Char}
    (markup : startsMarkup ('<' :: rest) = true)
    (plain : isBlank ch = false ∧ (isIdentifierStart ch || ch == '>') = false) :
    ¬ch :: text <+: rest := by
  rintro ⟨behind, rfl⟩
  rw [startsMarkup, List.cons_append, List.dropWhile_cons_of_neg (by simp [plain.1])] at markup
  dsimp only at markup
  rw [plain.2] at markup
  cases markup

/-- Where markup starts, neither host code nor a heredoc does. -/
theorem hostAhead_markup
    {rest : List Char}
    (markup : startsMarkup ('<' :: rest) = true) :
    hostAhead true '<' rest = .markup := by
  have question (text : List Char) : ¬ '?' :: text <+: rest :=
    not_prefix_of_startsMarkup markup (by decide)
  have less (text : List Char) : ¬ '<' :: text <+: rest :=
    not_prefix_of_startsMarkup markup (by decide)
  simp [hostAhead, markup, question, less]

/-- Where an expression may start, a scanner finds the markup behind blank space. -/
theorem HostScanner.next_found (markup : startsMarkup c.skipBlanks.rest = true) :
    HostScanner.next ⟨c, true⟩ = (.ok (some c.skipBlanks), ⟨c.skipBlanks, true⟩) := by
  obtain ⟨rest, ahead⟩ := exists_rest_of_startsMarkup markup
  rw [ahead] at markup
  exact next_of_markup ahead (hostAhead_markup markup)

/-- In front of what looks like a tag, a scanner goes over the trivia. -/
theorem next_scanner_of_startsMarkup
    (skipped : skipTrivia c = ⟨.ok (), first⟩)
    (keeps : KeepsHostCode c)
    (markup : startsMarkup first.rest = true) :
    HostScanner.next (trail.scanner c) = HostScanner.next ⟨first, trail.expressionStart⟩ := by
  have apart : ∀ ch, first.peek? = some ch → ch = '<' := by
    intro ch next
    obtain ⟨rest, ahead⟩ := peek?_eq_some_iff.mp next
    obtain ⟨rest', ahead'⟩ := exists_rest_of_startsMarkup markup
    rw [ahead] at ahead'
    exact (List.cons.inj ahead').1
  rw [scanner_eq_of_apart skipped apart, keeps.next skipped]

/-- Where an expression may start, a scanner finds what looks like a tag. -/
theorem next_tag
    (skipped : skipTrivia c = ⟨.ok (), first⟩)
    (keeps : KeepsHostCode c)
    (start : trail.expressionStart = true)
    (markup : startsMarkup first.rest = true) :
    HostScanner.next (trail.scanner c) = (.ok (some first), ⟨first, true⟩) := by
  have here := (of_skipTrivia skipped).1
  rw [next_scanner_of_startsMarkup skipped keeps markup, start,
    HostScanner.next_found (by rwa [here]), here]

/-- Where no expression may start, a scanner passes over the bracket of what looks like a tag. -/
theorem next_bracket
    (skipped : skipTrivia c = ⟨.ok (), first⟩)
    (keeps : KeepsHostCode c)
    (start : trail.expressionStart = false)
    (markup : startsMarkup first.rest = true) :
    HostScanner.next (trail.scanner c) = HostScanner.next ⟨first.advance, true⟩ := by
  rw [next_scanner_of_startsMarkup skipped keeps markup, start]
  obtain ⟨rest, ahead⟩ := exists_rest_of_startsMarkup markup
  rw [ahead] at markup
  have behind : first.advance.rest = rest := by
    rw [rest_advance, ahead, List.drop_one, List.tail_cons]
  refine HostScanner.next_less (peek?_eq_some_iff.mpr ⟨rest, ahead⟩) (fun other => nomatch other)
    ?_ ?_
  · intro next
    obtain ⟨more, question⟩ := peek?_eq_some_iff.mp next
    rw [behind] at question
    have bare : ¬['?'] <+: rest := not_prefix_of_startsMarkup markup (by decide)
    exact bare ⟨more, question.symm⟩
  · rw [behind]
    exact not_prefix_of_startsMarkup markup (by decide)

/-- A scanner finds nothing at the end of a text. -/
theorem next_end
    (next : NextLexeme c .endOfInput d)
    (keeps : KeepsHostCode c) :
    (HostScanner.next (trail.scanner c)).1 = .ok none := by
  obtain ⟨first, skipped⟩ := next.skipTrivia
  obtain ⟨length, read, -⟩ := read_of_skipTrivia next skipped
  have ended : first.rest = [] := by
    cases ahead : first.rest with
    | nil => rfl
    | cons ch rest =>
        rw [ahead] at read
        cases startsLexeme_of_startingWith read with
        | number number => cases number
  have apart : ∀ ch, first.peek? = some ch → ch = '<' := by
    intro ch next
    rw [peek?, ended] at next
    cases next
  have here := (of_skipTrivia skipped).1
  rw [scanner_eq_of_apart skipped apart, keeps.next skipped,
    HostScanner.next_of_ended (by rwa [here])]

end EmbeddedMarkup
