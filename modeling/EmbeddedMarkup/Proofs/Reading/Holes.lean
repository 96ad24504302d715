import EmbeddedMarkup.Proofs.Expression.Enclosed
import EmbeddedMarkup.Proofs.Markup.Spelling
import EmbeddedMarkup.Proofs.Reading.Order
import EmbeddedMarkup.Proofs.Text.Copy

/-!
# Tokens inside a text

Host code inside markup ends in front of the brace that closes its hole.  No token that ends in
front of a brace depends on what is behind it, so all that the readers look at in a hole is inside
the markup too, and a copy of the markup has the same tokens in its holes.

Host code that is cut out of its text ends where the copy ends.  There the readers look at what
follows: they see the end of the input in the copy, and maybe some other token in the text.  Host
code that is a whole text and stands in a hole ends in front of a brace, behind whatever is left of
the text and a line end.
-/

namespace EmbeddedMarkup

open Cursor

variable {start stop start' brace limit c d first behind : Cursor} {lexeme : Lexeme} {span : Span}

/-- Whether markup starts in a text does not depend on what lies behind a brace. -/
theorem startsMarkup_append_brace {word rest rest' : List Char} :
    startsMarkup (word ++ '\x7d' :: rest') = startsMarkup (word ++ '\x7d' :: rest) := by
  cases word with
  | nil => rfl
  | cons ch word =>
      by_cases bracket : ch = '<'
      · subst bracket
        rw [List.cons_append, List.cons_append, startsMarkup_cons, startsMarkup_cons,
          List.find?_append, List.find?_append]
        rfl
      · simp [startsMarkup, bracket]

/-- Where no markup starts, none does with something else behind the text. -/
theorem Exchanges.startsMarkup_eq_false
    {word rest rest' : List Char}
    (exchanges : Exchanges word rest rest')
    (plain : startsMarkup (word ++ rest) = false) :
    startsMarkup (word ++ rest') = false := by
  cases exchanges with
  | brace => rw [startsMarkup_append_brace, plain]
  | cut =>
      rw [List.append_nil]
      cases word with
      | nil => rfl
      | cons ch word =>
          by_cases bracket : ch = '<'
          · subst bracket
            rw [List.cons_append, startsMarkup_cons, List.find?_append] at plain
            rw [startsMarkup_cons]
            cases visible : word.find? (!isBlank ·) with
            | none => rfl
            | some next => simpa [visible] using plain
          · simp [startsMarkup, bracket]
  | enclosed =>
      rw [← List.append_assoc]
      generalize word ++ rest = word at plain ⊢
      cases word with
      | nil => rfl
      | cons ch word =>
          by_cases bracket : ch = '<'
          · subst bracket
            rw [startsMarkup_cons] at plain
            rw [List.cons_append, startsMarkup_cons, List.find?_append]
            cases visible : word.find? (!isBlank ·) with
            | none => rfl
            | some next => simpa [visible] using plain
          · simp [startsMarkup, bracket]

/-! ## Tokens -/

section Tokens

/-- A run ends at the latest in front of a character that does not continue it. -/
theorem skipWhile_le
    {ch : Char}
    {p : Char → Bool}
    (reached : c ≤ d)
    (ahead : d.peek? = some ch)
    (ends : p ch = false) :
    c.skipWhile p ≤ d := by
  obtain ⟨more, rest⟩ := peek?_eq_some_iff.mp ahead
  have spelled := textTo_append_rest reached
  have short : (c.textWhile p).length ≤ (c.textTo d).length := by
    rw [textWhile, ← spelled, rest]
    induction c.textTo d with
    | nil => simp [ends]
    | cons next text ih =>
        cases passes : p next with
        | false => simp [passes]
        | true => simpa [passes] using ih
  refine le_of_size_le (c.le_skipWhile p) reached ?_
  rw [skipWhile, size_advanceBy, size, size, ← spelled, List.length_append]
  omega

/-- A closing brace that stands in a text from `start` to `stop`. -/
structure ClosesIn (start stop brace : Cursor) : Prop where
  inside : start ≤ brace
  within : brace < stop
  closes : brace.peek? = some '\x7d'

/-- Characters up to a cursor that is not beyond another one are in front of that. -/
theorem Cursor.length_le_textTo
    {length : Nat}
    (before : c ≤ d)
    (ends : c.advanceBy length ≤ d)
    (fits : length ≤ c.size) :
    length ≤ (c.textTo d).length := by
  have sizes := size_le_of_le ends
  have spelled := congrArg List.length (textTo_append_rest before)
  rw [List.length_append] at spelled
  rw [size_advanceBy] at sizes
  simp only [size] at sizes fits
  omega

/-- Where a token is read, a text is not the character that starts a comment. -/
theorem textTo_ne_hash
    {length : Nat}
    (found : LexemeReading.ofChars c.rest = .found lexeme length)
    (before : c ≤ d) :
    c.textTo d ≠ ['#'] := by
  intro hash
  rw [← textTo_append_rest before, hash] at found
  cases found

/-- A token that is not the end of the input takes a character. -/
theorem lt_of_found
    {length : Nat}
    (found : LexemeReading.ofChars c.rest = .found lexeme length)
    (more : lexeme ≠ .endOfInput) :
    c < c.advanceBy length := by
  obtain ⟨positive, nonempty⟩ :=
    LexemeReading.length_pos (congrArg LexemeReading.outcome found) more
  rw [found] at positive
  exact Cursor.lt_advanceBy positive nonempty

/--
Where a text from `start` to `stop` stands at `start'`, no host code follows it: nothing follows it
at all, or a closing brace does behind a line end and the trivia that are left.
-/
inductive Ends (start stop start' : Cursor) : Prop
  | nothing : (start.copy start' stop).rest = [] → Ends start stop start'
  | enclosed {more : List Char} {brace : Cursor} :
      (start.copy start' stop).rest = stop.rest ++ '\n' :: '\x7d' :: more →
      NextLexeme (start.copy start' stop) (.symbol .rightBrace) brace →
      Ends start stop start'

/--
A place in a text from `start` to `stop` that no token in front of it reaches beyond where the text
stands at `start'`: a closing brace, or the end of the text if no host code follows it there.
-/
inductive Bounds (start stop start' : Cursor) : Cursor → Prop
  | brace {brace : Cursor} : ClosesIn start stop brace → Bounds start stop start' brace
  | stop : Ends start stop start' → Bounds start stop start' stop

theorem Bounds.le_stop (bounds : Bounds start stop start' limit) : limit ≤ stop := by
  cases bounds with
  | brace closing => exact Cursor.le_of_lt closing.within
  | stop => exact stop.le_refl

variable (copied : Copied start stop start') (closing : ClosesIn start stop brace)

include copied closing

/-- A cursor and its copy have the same text in front of the brace. -/
theorem ClosesIn.rest_eq (inside : start ≤ c) (before : c ≤ brace) :
    ∃ more more', c.rest = c.textTo brace ++ '\x7d' :: more ∧
      (start.copy start' c).rest = c.textTo brace ++ '\x7d' :: more' := by
  obtain ⟨more, ahead⟩ := peek?_eq_some_iff.mp closing.closes
  have closes' := copied.peek? closing.inside closing.within
  rw [closing.closes] at closes'
  obtain ⟨more', ahead'⟩ := peek?_eq_some_iff.mp closes'
  have passes := passes_textTo before
  have passes' := copied.passes inside (Cursor.le_of_lt closing.within) passes
  exact ⟨more, more', by rw [← ahead, ← passes.1], by rw [← ahead', ← passes'.1]⟩

theorem ClosesIn.skipBlanks (inside : start ≤ c) (before : c ≤ brace) :
    c.skipBlanks ≤ brace ∧ (start.copy start' c).skipBlanks = start.copy start' c.skipBlanks := by
  have skipped := @skipWhile_le c brace '\x7d' isBlank before closing.closes rfl
  exact ⟨skipped, copied.skipBlanks inside (Cursor.lt_of_le_of_lt skipped closing.within)⟩

omit closing

variable (bounds : Bounds start stop start' limit)

include bounds

/-- A cursor and its copy have the same text up to the limit, and there they may differ. -/
theorem Bounds.exists_exchanges (inside : start ≤ c) (before : c ≤ limit) :
    ∃ rest rest', Exchanges (c.textTo limit) rest rest' ∧ c.rest = c.textTo limit ++ rest ∧
      (start.copy start' c).rest = c.textTo limit ++ rest' := by
  cases bounds with
  | brace closing =>
      obtain ⟨more, more', rest, rest'⟩ := closing.rest_eq copied inside before
      exact ⟨_, _, .brace, rest, rest'⟩
  | stop ends =>
      have whole := (textTo_append_rest before).symm
      cases ends with
      | nothing ended =>
          refine ⟨stop.rest, [], .cut (copied.closes.whole inside before), whole, ?_⟩
          rw [copied.rest_copy inside before, ended]
      | @enclosed more _ ahead _ =>
          refine ⟨stop.rest, stop.rest ++ '\n' :: '\x7d' :: more, .enclosed, whole, ?_⟩
          rw [copied.rest_copy inside before, ahead]

/-- Trivia that end in front of the limit are copied. -/
theorem Bounds.skipTrivia
    (inside : start ≤ c)
    (before : first ≤ limit)
    (within : first < stop)
    (plain : first.textTo limit ≠ ['#'])
    (skipped : EmbeddedMarkup.skipTrivia c = ⟨.ok (), first⟩) :
    EmbeddedMarkup.skipTrivia (start.copy start' c) = ⟨.ok (), start.copy start' first⟩ := by
  fun_induction EmbeddedMarkup.skipTrivia c with
  | case1 c absent =>
      cases skipped
      have skips := copied.skipBlanks inside within
      obtain ⟨rest, rest', exchanges, ahead, ahead'⟩ :=
        bounds.exists_exchanges copied (Cursor.le_trans inside c.le_skipBlanks) before
      rw [ahead] at absent
      rw [skipTrivia_eq_skipBlanks, skips]
      rw [skips, ahead']
      exact exchanges.readsComment absent (by simp) (by simp) fun _ => plain
  | case2 c length found ih =>
      have blanks := c.le_skipBlanks
      have passed := le_of_skipTrivia skipped
      have onward := Cursor.le_trans (c.skipBlanks.le_advanceBy length) passed
      have front := Cursor.le_trans onward before
      have skips := copied.skipBlanks inside (Cursor.lt_of_le_of_lt onward within)
      have inside' := Cursor.le_trans inside blanks
      have size := CommentReading.length_le found
      have fits := length_le_textTo front (Cursor.le_trans passed before) size
      obtain ⟨rest, rest', exchanges, ahead, ahead'⟩ := bounds.exists_exchanges copied inside' front
      have found' : CommentReading.ofChars (start.copy start' c.skipBlanks).rest =
          .comment length := by
        rw [ahead] at found
        rw [ahead']
        refine exchanges.readsComment found (by simp) ?_ (by simp)
        intro other same
        cases same
        exact fits
      rw [skipTrivia_comment (by rw [skips]; exact found'), skips, ← copy_advanceBy inside' size]
      exact ih (Cursor.le_trans inside' (c.skipBlanks.le_advanceBy length)) skipped
  | case3 => cases skipped

/-- A token that ends in front of the limit is copied. -/
theorem Bounds.readToken
    (inside : start ≤ c)
    (before : d ≤ limit)
    (more : lexeme ≠ .endOfInput)
    (read : EmbeddedMarkup.readToken c = ⟨.ok ⟨lexeme, span⟩, d⟩) :
    EmbeddedMarkup.readToken (start.copy start' c) =
      ⟨.ok ⟨lexeme, start.respan start' span⟩, start.copy start' d⟩ := by
  obtain ⟨first, length, skipped, found, rfl, rfl⟩ := readToken_eq_ok_iff.mp read
  have inside' := Cursor.le_trans inside (le_of_skipTrivia skipped)
  have front := Cursor.le_trans (first.le_advanceBy length) before
  obtain ⟨rest, rest', exchanges, ahead, ahead'⟩ := bounds.exists_exchanges copied inside' front
  have size : length ≤ first.size := by
    have short := LexemeReading.length_ofChars_le first.rest
    rwa [found] at short
  have within := Cursor.lt_of_lt_of_le (lt_of_found found more)
    (Cursor.le_trans before bounds.le_stop)
  have skipped' := bounds.skipTrivia copied inside front within (textTo_ne_hash found front) skipped
  rw [ahead] at found
  have found' := exchanges.readsLexeme found more (length_le_textTo front before size)
  rw [← ahead'] at found'
  rw [copied.spanTo inside' (first.le_advanceBy length) (Cursor.le_trans before bounds.le_stop),
    copy_advanceBy inside' size]
  exact readToken_eq_ok_iff.mpr ⟨_, _, skipped', found', rfl, rfl⟩

omit bounds

/-- A closing brace that is the next token is the next token of the copy. -/
theorem ClosesIn.readToken
    (closing : ClosesIn start stop brace)
    (inside : start ≤ c)
    (skipped : EmbeddedMarkup.skipTrivia c = ⟨.ok (), brace⟩)
    (read : EmbeddedMarkup.readToken c = ⟨.ok ⟨lexeme, span⟩, d⟩) :
    EmbeddedMarkup.readToken (start.copy start' c) =
      ⟨.ok ⟨lexeme, start.respan start' span⟩, start.copy start' d⟩ := by
  obtain ⟨first, length, skipped', found, rfl, rfl⟩ := readToken_eq_ok_iff.mp read
  rw [skipped] at skipped'
  cases skipped'
  have skips := Bounds.skipTrivia copied (.brace closing) inside brace.le_refl closing.within
    (by simp) skipped
  obtain ⟨more, more', rest, rest'⟩ := closing.rest_eq copied closing.inside brace.le_refl
  have brace_read {more : List Char} :
      LexemeReading.ofChars ('\x7d' :: more) = .found (.symbol .rightBrace) 1 := rfl
  rw [textTo_self, List.nil_append] at rest rest'
  rw [rest, brace_read] at found
  cases found
  have within : brace.advanceBy 1 ≤ stop := advance_le closing.within
  rw [copied.spanTo closing.inside (brace.le_advanceBy 1) within,
    copy_advanceBy closing.inside (size_pos_of_lt closing.within)]
  exact readToken_eq_ok_iff.mpr ⟨_, _, skips, by rw [rest', brace_read], rfl, rfl⟩

end Tokens

/-- The next token is inside the text, and nothing that makes it a token is behind the text. -/
inductive TokenIn (start stop start' c : Cursor) : Prop
  | before {limit d : Cursor} {lexeme : Lexeme} :
      Bounds start stop start' limit → NextLexeme c lexeme d → lexeme ≠ .endOfInput → d ≤ limit →
      TokenIn start stop start' c
  | brace {brace : Cursor} :
      ClosesIn start stop brace → skipTrivia c = ⟨.ok (), brace⟩ → TokenIn start stop start' c

namespace TokenIn

theorem exists_bounds (tokenIn : TokenIn start stop start' c) :
    ∃ limit, Bounds start stop start' limit ∧ c ≤ limit := by
  cases tokenIn with
  | before bounds next _ before => exact ⟨_, bounds, Cursor.le_trans next.le before⟩
  | brace closing skipped => exact ⟨_, .brace closing, le_of_skipTrivia skipped⟩

/-- In front of a token that is followed by one inside the text there is one as well. -/
theorem of_next
    (tokenIn : TokenIn start stop start' d)
    (next : NextLexeme c lexeme d)
    (more : lexeme ≠ .endOfInput) :
    TokenIn start stop start' c := by
  obtain ⟨limit, bounds, before⟩ := tokenIn.exists_bounds
  exact .before bounds next more before

theorem of_mayTake
    {kind : Symbol}
    {taken : Bool}
    (tokenIn : TokenIn start stop start' d)
    (may : MayTake kind c taken d) :
    TokenIn start stop start' c := by
  cases may with
  | taken next => exact tokenIn.of_next next (by simp)
  | left => exact tokenIn

theorem of_mayTakeIdentifier
    (tokenIn : TokenIn start stop start' d)
    (may : MayTakeIdentifier c d) :
    TokenIn start stop start' c := by
  cases may with
  | taken next => exact tokenIn.of_next next (by simp)
  | left => exact tokenIn

/-- Trivia in front of the token end inside the text. -/
theorem exists_bounds_of_skipTrivia
    (tokenIn : TokenIn start stop start' c)
    (skipped : skipTrivia c = ⟨.ok (), first⟩) :
    ∃ limit, Bounds start stop start' limit ∧ first ≤ limit ∧ first < stop ∧
      first.textTo limit ≠ ['#'] := by
  cases tokenIn with
  | before bounds next more before =>
      obtain ⟨span, read⟩ := next
      obtain ⟨first', length, skipped', found, rfl, -⟩ := readToken_eq_ok_iff.mp read
      rw [skipped] at skipped'
      cases skipped'
      have front := Cursor.le_trans (first.le_advanceBy length) before
      have within := Cursor.lt_of_lt_of_le (lt_of_found found more)
        (Cursor.le_trans before bounds.le_stop)
      exact ⟨_, bounds, front, within, textTo_ne_hash found front⟩
  | brace closing skipped' =>
      rw [skipped] at skipped'
      cases skipped'
      exact ⟨_, .brace closing, first.le_refl, closing.within, by simp⟩

variable (copied : Copied start stop start') (inside : start ≤ c)
  (tokenIn : TokenIn start stop start' c)

include copied inside tokenIn

theorem readToken (read : EmbeddedMarkup.readToken c = ⟨.ok ⟨lexeme, span⟩, d⟩) :
    EmbeddedMarkup.readToken (start.copy start' c) =
      ⟨.ok ⟨lexeme, start.respan start' span⟩, start.copy start' d⟩ := by
  cases tokenIn with
  | before bounds next more before =>
      obtain ⟨rfl, rfl⟩ := next.unique ⟨span, read⟩
      exact bounds.readToken copied inside before more read
  | brace closing skipped => exact closing.readToken copied inside skipped read

theorem nextLexeme (next : NextLexeme c lexeme d) :
    NextLexeme (start.copy start' c) lexeme (start.copy start' d) := by
  obtain ⟨span, read⟩ := next
  exact ⟨_, tokenIn.readToken copied inside read⟩

theorem skipTrivia (skipped : EmbeddedMarkup.skipTrivia c = ⟨.ok (), first⟩) :
    EmbeddedMarkup.skipTrivia (start.copy start' c) = ⟨.ok (), start.copy start' first⟩ := by
  obtain ⟨limit, bounds, front, within, plain⟩ := tokenIn.exists_bounds_of_skipTrivia skipped
  exact bounds.skipTrivia copied inside front within plain skipped

/-- Where no markup starts, none starts at the copy. -/
theorem startsMarkup_eq_false
    (skipped : EmbeddedMarkup.skipTrivia c = ⟨.ok (), first⟩)
    (plain : startsMarkup first.rest = false) :
    startsMarkup (start.copy start' first).rest = false := by
  obtain ⟨limit, bounds, front, -, -⟩ := tokenIn.exists_bounds_of_skipTrivia skipped
  obtain ⟨rest, rest', exchanges, ahead, ahead'⟩ :=
    bounds.exists_exchanges copied (Cursor.le_trans inside (le_of_skipTrivia skipped)) front
  rw [ahead] at plain
  rw [ahead', exchanges.startsMarkup_eq_false plain]

theorem mayTake
    {kind : Symbol}
    {taken : Bool}
    (may : MayTake kind c taken d) :
    MayTake kind (start.copy start' c) taken (start.copy start' d) := by
  cases may with
  | taken next => exact .taken (tokenIn.nextLexeme copied inside next)
  | left next other => exact .left (tokenIn.nextLexeme copied inside next) other

theorem mayTakeIdentifier (may : MayTakeIdentifier c d) :
    MayTakeIdentifier (start.copy start' c) (start.copy start' d) := by
  cases may with
  | taken next => exact .taken (tokenIn.nextLexeme copied inside next)
  | left next other => exact .left (tokenIn.nextLexeme copied inside next) other

end TokenIn

/-! ## First tokens -/

section FirstTokens

variable {level : Nat}

/-- There is a token behind a cursor, and it ends at another one or in front of it. -/
def StartsBefore (c d : Cursor) : Prop :=
  ∃ lexeme behind, NextLexeme c lexeme behind ∧ lexeme ≠ .endOfInput ∧ behind ≤ d

theorem StartsBefore.mono (starts : StartsBefore c d) (reached : d ≤ behind) :
    StartsBefore c behind := by
  obtain ⟨lexeme, first, next, more, before⟩ := starts
  exact ⟨lexeme, first, next, more, Cursor.le_trans before reached⟩

theorem NextLexeme.startsBefore
    (next : NextLexeme c lexeme behind)
    (more : lexeme ≠ .endOfInput)
    (reached : behind ≤ d) :
    StartsBefore c d :=
  ⟨lexeme, behind, next, more, reached⟩

theorem StartsBefore.le_of_skipTrivia
    (starts : StartsBefore c d)
    (skipped : skipTrivia c = ⟨.ok (), first⟩) :
    first ≤ d := by
  obtain ⟨lexeme, behind, ⟨span, read⟩, -, before⟩ := starts
  obtain ⟨first', length, skipped', -, rfl, -⟩ := readToken_eq_ok_iff.mp read
  rw [skipped] at skipped'
  cases skipped'
  exact Cursor.le_trans (first.le_advanceBy length) before

theorem Reads.starts_primary {whole : Expression} (reads : Reads level (.primary whole) c d) :
    StartsBefore c d := by
  cases reads with
  | leaf _ next leaf =>
      refine next.startsBefore ?_ d.le_refl
      rintro rfl
      cases leaf
  | name _ next _ => exact next.startsBefore (by simp) d.le_refl
  | arrayCall _ next _ opened entries =>
      exact next.startsBefore (by simp) (Cursor.le_trans opened.le entries.le)
  | array _ next entries => exact next.startsBefore (by simp) entries.le
  | function _ next function => exact next.startsBefore (by simp) function.le
  | parenthesized next inner closed =>
      exact next.startsBefore (by simp) (Cursor.le_trans inner.le closed.le)

/-- Behind blank space a header goes on, and ends further on. -/
theorem skipBlanks_lt_of_reads_headerTail
    {tail : HeaderTail Expression}
    (reads : Reads level (.headerTail tail) c d) :
    c.skipBlanks < d := by
  generalize same : Phrase.headerTail tail = phrase at reads
  induction reads generalizing tail with
  | headerEnd closed => exact lt_of_eat? closed
  | selfClosingEnd closed => exact lt_of_eatText? (by decide) closed
  | spreadItem opened spread rest =>
      exact Cursor.lt_of_lt_of_le (lt_of_eat? opened) (Cursor.le_trans spread.le rest.le)
  | attributeItem item _ _ rest =>
      exact Cursor.lt_of_le_of_lt (Cursor.le_trans item.le (Cursor.le_skipBlanks _)) (rest rfl)
  | _ => cases same

theorem lt_of_reads_header
    {header : Header Expression}
    (reads : Reads level (.header header) c d) :
    c < d := by
  cases reads with
  | fragmentHeader closed => exact Cursor.lt_of_le_of_lt c.le_skipBlanks (lt_of_eat? closed)
  | @namedHeader _ _ _ _ named _ reached _ rest =>
      exact Cursor.lt_of_le_of_lt (Cursor.le_trans c.le_skipBlanks reached)
        (Cursor.lt_of_le_of_lt named.le_skipBlanks (skipBlanks_lt_of_reads_headerTail rest))

/-- An element takes at least two characters. -/
theorem advanceBy_two_le_of_reads_element
    {element : Element Expression}
    (reads : Reads level (.element element) c d) :
    c.advanceBy 2 ≤ d := by
  have short {inside behind : Cursor} (opened : c.eat? '<' = some inside) (passed : inside < behind)
      (reached : behind ≤ d) : c.advanceBy 2 ≤ d := by
    obtain ⟨-, rfl⟩ := eat?_eq_some_iff.mp opened
    exact Cursor.le_trans (advance_le passed) reached
  cases reads with
  | selfClosingElement opened header _ => exact short opened (lt_of_reads_header header) d.le_refl
  | closedElement opened header _ content =>
      exact short opened (lt_of_reads_header header) content.le

theorem Reads.starts_operand {whole : Expression} (reads : Reads level (.operand whole) c d) :
    StartsBefore c d := by
  cases reads with
  | markup skipped markup element =>
      obtain ⟨lexeme, behind, next, isLess, short⟩ := nextLexeme_of_startsMarkup skipped markup
      have more : lexeme ≠ .endOfInput := by rcases isLess with rfl | rfl <;> simp
      exact next.startsBefore more
        (Cursor.le_trans short (advanceBy_two_le_of_reads_element element))
  | not _ _ next inner => exact next.startsBefore (by simp) inner.le
  | negate _ _ next inner => exact next.startsBefore (by simp) inner.le
  | unsigned _ _ _ _ _ primary accesses => exact primary.starts_primary.mono accesses.le

theorem Reads.starts_expression
    {power : Nat}
    {whole : Expression}
    (reads : Reads level (.expression power whole) c d) :
    StartsBefore c d := by
  cases reads with
  | expression _ operand continuation => exact operand.starts_operand.mono continuation.le

theorem Reads.starts_access
    {base : Expression}
    {form : ExpressionForm Expression}
    (reads : Reads level (.access base form) c d) :
    StartsBefore c d := by
  cases reads with
  | memberAccess next member => exact next.startsBefore (by simp) member.le
  | entryAccess next index closed =>
      exact next.startsBefore (by simp) (Cursor.le_trans index.le closed.le)
  | callAccess next _ entries => exact next.startsBefore (by simp) entries.le
  | staticAccess next _ member => exact next.startsBefore (by simp) member.le

theorem Reads.starts_entry
    {keyed : Bool}
    {item : ArrayItem Expression}
    (reads : Reads level (.entry keyed item) c d) :
    StartsBefore c d := by
  cases reads with
  | plainEntry _ ellipsis value _ =>
      cases ellipsis with
      | taken next => exact next.startsBefore (by simp) value.le
      | left => exact value.starts_expression
  | keyedEntry _ _ key next value =>
      exact key.starts_expression.mono (Cursor.le_trans next.le value.le)

theorem starts_parameter
    {nullable : Bool}
    {typed named : Cursor}
    (maybe : MayTake .question c nullable typed)
    (identifier : MayTakeIdentifier typed named)
    (read : readToken named = ⟨.ok ⟨lexeme, span⟩, d⟩)
    (more : lexeme ≠ .endOfInput) :
    StartsBefore c d := by
  have reached := le_of_readToken read
  cases maybe with
  | taken next => exact next.startsBefore (by simp) (Cursor.le_trans identifier.le reached)
  | left =>
      cases identifier with
      | taken next => exact next.startsBefore (by simp) reached
      | left => exact ⟨_, _, ⟨_, read⟩, more, Cursor.le_refl _⟩

/-- Host code and the places where its phrases start and end. -/
def Phrase.isHost : Phrase → Bool
  | .element _ | .header _ | .headerTail _ | .attribute _ | .attributeValue _ | .hole _ | .spread _
  | .braces _ | .content .. => false
  | _ => true

/-- Host code starts with a token, unless there is none of it. -/
theorem Reads.starts
    {phrase : Phrase}
    (reads : Reads level phrase c d)
    (host : phrase.isHost = true) :
    c = d ∨ StartsBefore c d := by
  cases reads with
  | expression _ operand continuation =>
      exact .inr (operand.starts_operand.mono continuation.le)
  | stop => exact .inl rfl
  | connect next connects _ connection continuation =>
      exact .inr (next.startsBefore (Lexeme.ne_endOfInput_of_binding? connects)
        (Cursor.le_trans connection.le continuation.le))
  | binary operand => exact .inr operand.starts_expression
  | assign _ value => exact .inr value.starts_expression
  | ternary ifTrue next ifFalse =>
      right
      cases ifTrue with
      | absent => exact next.startsBefore (by simp) ifFalse.le
      | present _ _ part => exact part.starts_expression.mono (Cursor.le_trans next.le ifFalse.le)
  | absent => exact .inl rfl
  | present _ _ part => exact .inr part.starts_expression
  | markup skipped starts element => exact .inr (Reads.markup skipped starts element).starts_operand
  | not _ _ next inner => exact .inr (next.startsBefore (by simp) inner.le)
  | negate _ _ next inner => exact .inr (next.startsBefore (by simp) inner.le)
  | unsigned _ _ _ _ _ primary accesses => exact .inr (primary.starts_primary.mono accesses.le)
  | leaf skipped next leaf =>
      have primary : Reads level (.primary _) c d := .leaf skipped next leaf
      exact .inr primary.starts_primary
  | name _ next _ => exact .inr (next.startsBefore (by simp) d.le_refl)
  | arrayCall _ next _ opened entries =>
      exact .inr (next.startsBefore (by simp) (Cursor.le_trans opened.le entries.le))
  | array _ next entries => exact .inr (next.startsBefore (by simp) entries.le)
  | function _ next function => exact .inr (next.startsBefore (by simp) function.le)
  | parenthesized next inner closed =>
      exact .inr (next.startsBefore (by simp) (Cursor.le_trans inner.le closed.le))
  | noParameters next => exact .inr (next.startsBefore (by simp) d.le_refl)
  | lastParameter _ _ maybe identifier read comma closed =>
      exact .inr ((starts_parameter maybe identifier read (by simp)).mono closed.le)
  | moreParameters _ _ maybe identifier read comma list =>
      exact .inr ((starts_parameter maybe identifier read (by simp)).mono
        (Cursor.le_trans comma.le list.le))
  | arrowFunction next list arrow body =>
      exact .inr (next.startsBefore (by simp)
        (Cursor.le_trans list.le (Cursor.le_trans arrow.le body.le)))
  | plainEntry skipped ellipsis value plain =>
      exact .inr (Reads.plainEntry skipped ellipsis value plain).starts_entry
  | keyedEntry _ _ key next value =>
      exact .inr (key.starts_expression.mono (Cursor.le_trans next.le value.le))
  | noEntries next => exact .inr (next.startsBefore (by simp) d.le_refl)
  | lastEntry _ _ item comma closed => exact .inr (item.starts_entry.mono closed.le)
  | moreEntries _ _ item comma items =>
      exact .inr (item.starts_entry.mono (Cursor.le_trans comma.le items.le))
  | plainMember next _ _ => exact .inr (next.startsBefore (by simp) d.le_refl)
  | calledMember next opened entries =>
      exact .inr (next.startsBefore (by simp) (Cursor.le_trans opened.le entries.le))
  | memberAccess next member => exact .inr (next.startsBefore (by simp) member.le)
  | entryAccess next index closed =>
      exact .inr (next.startsBefore (by simp) (Cursor.le_trans index.le closed.le))
  | callAccess next _ entries => exact .inr (next.startsBefore (by simp) entries.le)
  | staticAccess next _ member => exact .inr (next.startsBefore (by simp) member.le)
  | noAccess => exact .inl rfl
  | moreAccesses access accesses => exact .inr (access.starts_access.mono accesses.le)
  | _ => cases host

end FirstTokens

/-! ## What follows -/

/-- The next token is inside the text, or the text ends here and no host code follows its copy. -/
def FollowedIn (start stop start' c : Cursor) : Prop :=
  TokenIn start stop start' c ∨ c = stop ∧ Ends start stop start'

theorem TokenIn.followed (tokenIn : TokenIn start stop start' c) : FollowedIn start stop start' c :=
  .inl tokenIn

namespace FollowedIn

theorem exists_bounds (followed : FollowedIn start stop start' c) :
    ∃ limit, Bounds start stop start' limit ∧ c ≤ limit := by
  rcases followed with tokenIn | ⟨rfl, ends⟩
  · exact tokenIn.exists_bounds
  · exact ⟨c, .stop ends, c.le_refl⟩

theorem le_stop (followed : FollowedIn start stop start' c) : c ≤ stop := by
  obtain ⟨limit, bounds, before⟩ := followed.exists_bounds
  exact Cursor.le_trans before bounds.le_stop

/-- What starts in front of something that is followed inside the text is inside the text. -/
theorem of_starts (followed : FollowedIn start stop start' d) (starts : StartsBefore c d) :
    TokenIn start stop start' c := by
  obtain ⟨limit, bounds, before⟩ := followed.exists_bounds
  obtain ⟨lexeme, behind, next, more, front⟩ := starts
  exact .before bounds next more (Cursor.le_trans front before)

theorem of_next
    (followed : FollowedIn start stop start' d)
    (next : NextLexeme c lexeme d)
    (more : lexeme ≠ .endOfInput) :
    TokenIn start stop start' c :=
  followed.of_starts (next.startsBefore more d.le_refl)

theorem of_taken
    {kind : Symbol}
    (followed : FollowedIn start stop start' d)
    (may : MayTake kind c true d) :
    TokenIn start stop start' c := by
  cases may with
  | taken next => exact followed.of_next next (by simp)

/-- In front of host code that is followed inside the text something follows inside the text. -/
theorem of_reads
    {level : Nat}
    {phrase : Phrase}
    (followed : FollowedIn start stop start' d)
    (reads : Reads level phrase c d)
    (host : phrase.isHost = true) :
    FollowedIn start stop start' c := by
  rcases reads.starts host with rfl | starts
  · exact followed
  · exact .inl (followed.of_starts starts)

variable (copied : Copied start stop start') (inside : start ≤ c)
  (followed : FollowedIn start stop start' c)

include copied inside followed

/-- What follows is copied, unless the text ends. -/
theorem exists_nextLexeme (next : NextLexeme c lexeme d) :
    ∃ lexeme' d', NextLexeme (start.copy start' c) lexeme' d' ∧
      (lexeme' = lexeme ∨ lexeme' = .endOfInput ∨ lexeme' = .symbol .rightBrace) := by
  rcases followed with tokenIn | ⟨rfl, ended | ⟨-, closes⟩⟩
  · exact ⟨_, _, tokenIn.nextLexeme copied inside next, .inl rfl⟩
  · exact ⟨_, _, nextLexeme_endOfInput ended, .inr (.inl rfl)⟩
  · exact ⟨_, _, closes, .inr (.inr rfl)⟩

/-- A symbol that does not follow does not follow the copy. -/
theorem mayTake_false
    {kind : Symbol}
    (may : MayTake kind c false c)
    (open_ : kind ≠ .rightBrace) :
    MayTake kind (start.copy start' c) false (start.copy start' c) := by
  cases may with
  | left next other =>
      obtain ⟨lexeme', d', next', rfl | rfl | rfl⟩ := followed.exists_nextLexeme copied inside next
      · exact .left next' other
      · exact .left next' (by simp)
      · exact .left next' (by simpa using open_.symm)

end FollowedIn

end EmbeddedMarkup
