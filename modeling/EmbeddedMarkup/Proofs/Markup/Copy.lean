import EmbeddedMarkup.Proofs.Markup.Tiling
import EmbeddedMarkup.Proofs.Reading.Copy
import EmbeddedMarkup.Proofs.Reading.Levels

/-!
# Copies of markup

An element that is read somewhere in a source is read wherever its text stands: in the same source
or in another one, and in front of whatever text.  Only the spans are others.
-/

namespace EmbeddedMarkup

open Cursor

variable {start stop start' brace c d first behind middle : Cursor} {ch : Char} {level : Nat}

/-! ## Comments -/

section Comments

variable {text rest rest' expected : List Char} {comment : Comment} {reached : c < d}

/-- Whether a text starts with another one does not depend on what is behind a foreign character. -/
theorem isPrefixOf_append_cons (foreign : ch ∉ expected) :
    expected.isPrefixOf (text ++ ch :: rest') = expected.isPrefixOf (text ++ ch :: rest) := by
  induction expected generalizing text with
  | nil => simp
  | cons next expected ih =>
      rw [List.mem_cons, not_or] at foreign
      cases text with
      | nil =>
          have other : (next == ch) = false := beq_eq_false_iff_ne.mpr (Ne.symm foreign.1)
          simp [List.isPrefixOf, other]
      | cons seen text =>
          rw [List.cons_append, List.cons_append, List.isPrefixOf_cons_cons,
            List.isPrefixOf_cons_cons, ih foreign.2]

theorem startsSpread_rest (c : Cursor) : startsSpread c.rest = c.skipBlanks.startsWith "..." := by
  rw [startsSpread, startsWith, rest_skipBlanks]

/-- Braces hold a comment if its end is the last thing in front of the closing one. -/
theorem readComment?_eq_some_iff :
    readComment? c = .ok (some ⟨comment, d, reached⟩) ↔
      c.peek? = some '\x7b' ∧
      c.advance.skipBlanks.startsWith "/*" = true ∧
      ∃ tail, blockCommentTail? (c.advance.skipBlanks.rest.drop 2) = some tail ∧
        (c.advance.skipBlanks.advanceBy (tail + 2)).skipBlanks.eat? '\x7d' = some d ∧
        comment = ⟨String.ofList (c.advance.skipBlanks.rest.take (tail + 2)), c.spanTo d⟩ := by
  unfold readComment?
  constructor
  · intro found
    split at found
    · cases found
    · rename_i opened
      obtain ⟨opens, rfl⟩ := eat?_eq_some_iff.mp opened
      dsimp only at found
      split at found
      · rename_i starts
        split at found
        · cases found
        · rename_i tail ended
          split at found <;> cases found
          rename_i closed
          exact ⟨opens, starts, tail, ended, closed, rfl⟩
      · cases found
  · rintro ⟨opens, starts, tail, ended, closed, rfl⟩
    split
    · rename_i none
      exact absurd opens (eat?_eq_none_iff.mp none)
    · rename_i opened
      obtain ⟨-, rfl⟩ := eat?_eq_some_iff.mp opened
      simp only [starts, if_true, ended]
      split
      · rename_i none
        rw [closed] at none
        cases none
      · rename_i closed'
        rw [closed] at closed'
        cases closed'
        rfl

/-- Braces hold no comment if something else is first, or something is left behind the comment. -/
theorem readComment?_eq_none_iff (opens : c.peek? = some '\x7b') :
    readComment? c = .ok none ↔
      c.advance.skipBlanks.startsWith "/*" = true →
      ∃ tail, blockCommentTail? (c.advance.skipBlanks.rest.drop 2) = some tail ∧
        (c.advance.skipBlanks.advanceBy (tail + 2)).skipBlanks.eat? '\x7d' = none := by
  unfold readComment?
  split
  · rename_i none
    exact absurd opens (eat?_eq_none_iff.mp none)
  · rename_i opened
    obtain ⟨-, rfl⟩ := eat?_eq_some_iff.mp opened
    cases starts : c.advance.skipBlanks.startsWith "/*" with
    | false => simp [starts]
    | true =>
        simp only [starts, if_true, true_implies]
        split
        · rename_i none
          simp only [reduceCtorEq, none, false_and, exists_false]
        · rename_i tail ended
          simp only [ended, Option.some.injEq, exists_eq_left']
          split <;> rename_i closed <;> simp [closed]

variable (copied : Copied start stop start') (closing : ClosesIn start stop brace)

include copied closing

theorem startsWith_copy
    {expected : String}
    (foreign : '\x7d' ∉ expected.toList)
    (inside : start ≤ c)
    (front : c ≤ brace) :
    (start.copy start' c).startsWith expected = c.startsWith expected := by
  obtain ⟨more, more', rest, rest'⟩ := closing.rest_eq copied inside front
  rw [startsWith, startsWith, rest, rest', isPrefixOf_append_cons foreign]

/-- A comment that ends in front of a brace is copied. -/
theorem blockCommentTail?_copy
    {tail : Nat}
    (inside : start ≤ c)
    (ends : c.advanceBy (tail + 2) ≤ brace)
    (closed : blockCommentTail? (c.rest.drop 2) = some tail) :
    blockCommentTail? ((start.copy start' c).rest.drop 2) = some tail ∧
      (start.copy start' c).rest.take (tail + 2) = c.rest.take (tail + 2) ∧
      ((start.copy start' c).advanceBy (tail + 2)).skipBlanks =
        start.copy start' (c.advanceBy (tail + 2)).skipBlanks := by
  have front := Cursor.le_trans (c.le_advanceBy (tail + 2)) ends
  have size : tail + 2 ≤ c.size := by
    have long := length_blockCommentTail?_pos closed
    have taken := length_blockCommentTail?_le closed
    rw [List.length_drop] at taken
    rw [Cursor.size]
    omega
  have fits := length_le_textTo front ends size
  obtain ⟨more, more', rest, rest'⟩ := closing.rest_eq copied inside front
  have short : 2 ≤ (c.textTo brace).length := by omega
  refine ⟨?_, ?_, ?_⟩
  · rw [rest, List.drop_append_of_le_length short] at closed
    rw [rest', List.drop_append_of_le_length short]
    refine blockCommentTail?_append (blockCommentTail?_of_append closed ?_)
    rw [List.length_drop]
    omega
  · rw [rest, rest', List.take_append_of_le_length fits, List.take_append_of_le_length fits]
  · rw [← copy_advanceBy inside size]
    exact (closing.skipBlanks copied (Cursor.le_trans inside (c.le_advanceBy _)) ends).2

end Comments

/-! ## Holes -/

section Holes

variable {part : Option Expression} {inner : Expression}

theorem skipBlanks_le_of_skipTrivia (skipped : skipTrivia c = ⟨.ok (), first⟩) :
    c.skipBlanks ≤ first := by
  rw [skipTrivia] at skipped
  split at skipped
  · cases skipped
    exact Cursor.le_refl _
  · exact Cursor.le_trans (Cursor.le_advanceBy _ _) (le_of_skipTrivia skipped)
  · cases skipped

/-- A brace in front of which only blank space is left closes the hole. -/
theorem TokenIn.of_closes
    (inside : start ≤ c)
    (within : d ≤ stop)
    (closed : c.skipBlanks.eat? '\x7d' = some d) :
    TokenIn start stop start' c := by
  obtain ⟨closes, rfl⟩ := eat?_eq_some_iff.mp closed
  exact .brace ⟨Cursor.le_trans inside c.le_skipBlanks,
    Cursor.lt_of_lt_of_le (lt_of_eat? closed) within, closes⟩ (skipTrivia_of_brace closes)

/-- The brace that closes a hole stands behind a comment at the start of the hole. -/
theorem closesIn_of_reads_hole
    (inside : start ≤ c)
    (within : d ≤ stop)
    (reads : Reads level (.hole part) c d) :
    ∃ brace, ClosesIn start stop brace ∧ c.skipBlanks ≤ brace ∧
      ∀ length, CommentReading.ofChars c.skipBlanks.rest = .comment length →
        (c.skipBlanks.advanceBy length).skipBlanks ≤ brace := by
  cases reads with
  | emptyHole closed =>
      obtain ⟨closes, rfl⟩ := eat?_eq_some_iff.mp closed
      refine ⟨c.skipBlanks, ⟨Cursor.le_trans inside c.le_skipBlanks,
        Cursor.lt_of_lt_of_le (lt_of_eat? closed) within, closes⟩, Cursor.le_refl _, ?_⟩
      intro length found
      obtain ⟨more, ahead⟩ := peek?_eq_some_iff.mp closes
      rw [ahead] at found
      cases found
  | @filledHole _ _ _ middle _ _ reads closed =>
      have onward := Cursor.le_trans reads.le middle.le_skipBlanks
      have starts := reads.starts_expression
      refine ⟨middle.skipBlanks, ⟨Cursor.le_trans inside (Cursor.le_trans c.le_skipBlanks onward),
        Cursor.lt_of_lt_of_le (lt_of_eat? closed) within, (eat?_eq_some_iff.mp closed).1⟩,
        onward, ?_⟩
      cases reads with
      | expression skipped _ _ =>
          intro length found
          have front := Cursor.le_trans (starts.le_of_skipTrivia skipped) middle.le_skipBlanks
          rw [skipTrivia_comment (by rwa [skipBlanks_skipBlanks]), skipBlanks_skipBlanks] at skipped
          exact Cursor.le_trans (skipBlanks_le_of_skipTrivia skipped) front

/-- A comment is told by how it starts and by its end. -/
theorem commentReading_of_startsWith
    {tail : Nat}
    (starts : c.startsWith "/*" = true)
    (closed : blockCommentTail? (c.rest.drop 2) = some tail) :
    CommentReading.ofChars c.rest = .comment (tail + 2) := by
  obtain ⟨more, spelled⟩ := List.isPrefixOf_iff_prefix.mp starts
  have ahead : c.rest = '/' :: '*' :: more := spelled.symm
  rw [ahead] at closed ⊢
  have closed' : blockCommentTail? more = some tail := closed
  simp only [CommentReading.ofChars, closed']

/-- An empty hole is the null constant wherever it stands. -/
theorem respan_getD_nullAt (part : Option Expression) (f : Span → Span) (span : Span) :
    (part.getD (HostConstants.nullAt span)).respan f =
      (part.map (Expression.respan f)).getD (HostConstants.nullAt (f span)) := by
  cases part with
  | none => exact Expression.respan_mk f _ span
  | some => rfl

variable (copied : Copied start stop start')

include copied

theorem copies_emptyHole (closed : c.skipBlanks.eat? '\x7d' = some d) :
    (Phrase.hole none).Copies start stop start' level c d := by
  intro inside within
  have inside' := Cursor.le_trans inside c.le_skipBlanks
  have before := Cursor.lt_of_lt_of_le (lt_of_eat? closed) within
  refine .emptyHole ?_
  rw [copied.skipBlanks inside before]
  exact copied.eat? inside' within closed

theorem copies_filledHole
    (filled : c.skipBlanks.peek? ≠ some '\x7d')
    (reads : Reads level (.expression 0 inner) c.skipBlanks middle)
    (closed : middle.skipBlanks.eat? '\x7d' = some d)
    (reads' : (Phrase.expression 0 inner).Copies start stop start' level c.skipBlanks middle) :
    (Phrase.hole (some inner)).Copies start stop start' level c d := by
  intro inside within
  have inside_first := Cursor.le_trans inside c.le_skipBlanks
  have inside_middle := Cursor.le_trans inside_first reads.le
  have before := Cursor.lt_of_lt_of_le (lt_of_eat? closed) within
  have before_first :=
    Cursor.lt_of_le_of_lt (Cursor.le_trans reads.le middle.le_skipBlanks) before
  have copy := reads' inside_first (TokenIn.of_closes inside_middle within closed).followed
  rw [Phrase.copy, ← copied.skipBlanks inside before_first] at copy
  refine .filledHole ?_ copy ?_
  · rw [copied.skipBlanks inside before_first, copied.peek? inside_first before_first]
    exact filled
  · rw [copied.skipBlanks inside_middle before]
    exact copied.eat? (Cursor.le_trans inside_middle middle.le_skipBlanks) within closed

theorem copies_spread
    (dots : c.skipBlanks.eatText? "..." = some behind)
    (reads : Reads level (.expression 0 inner) behind.skipBlanks middle)
    (closed : middle.skipBlanks.eat? '\x7d' = some d)
    (reads' : (Phrase.expression 0 inner).Copies start stop start' level behind.skipBlanks
      middle) :
    (Phrase.spread inner).Copies start stop start' level c d := by
  intro inside within
  have inside_first := Cursor.le_trans inside c.le_skipBlanks
  have order := Cursor.le_of_lt (lt_of_eatText? (by decide) dots)
  have inside_behind := Cursor.le_trans inside_first order
  have inside_inner := Cursor.le_trans inside_behind behind.le_skipBlanks
  have inside_middle := Cursor.le_trans inside_inner reads.le
  have before := Cursor.lt_of_lt_of_le (lt_of_eat? closed) within
  have before_inner :=
    Cursor.lt_of_le_of_lt (Cursor.le_trans reads.le middle.le_skipBlanks) before
  have before_behind := Cursor.lt_of_le_of_lt behind.le_skipBlanks before_inner
  have copy := reads' inside_inner (TokenIn.of_closes inside_middle within closed).followed
  rw [Phrase.copy, ← copied.skipBlanks inside_behind before_inner] at copy
  refine .spread ?_ copy ?_
  · rw [copied.skipBlanks inside (Cursor.lt_of_le_of_lt order before_behind)]
    exact copied.eatText? inside_first (Cursor.le_of_lt before_behind) dots
  · rw [copied.skipBlanks inside_middle before]
    exact copied.eat? (Cursor.le_trans inside_middle middle.le_skipBlanks) within closed

theorem skipBlanks_advance_copy
    (inside : start ≤ c)
    (within : c.advance.skipBlanks < stop) :
    (start.copy start' c).advance.skipBlanks = start.copy start' c.advance.skipBlanks := by
  have here := Cursor.lt_of_le_of_lt (Cursor.le_trans c.le_advance c.advance.le_skipBlanks) within
  rw [Copied.advance inside here, copied.skipBlanks (Cursor.le_trans inside c.le_advance) within]

theorem copies_comment
    {comment : Comment}
    {reached : c < d}
    (found : readComment? c = .ok (some ⟨comment, d, reached⟩)) :
    (Phrase.braces (.comment comment)).Copies start stop start' level c d := by
  intro inside within
  obtain ⟨opens, starts, tail, ended, closed, rfl⟩ := readComment?_eq_some_iff.mp found
  have before := Cursor.lt_of_lt_of_le (lt_of_eat? closed) within
  have here := Cursor.lt_of_lt_of_le reached within
  have inside_first :=
    Cursor.le_trans inside (Cursor.le_trans c.le_advance c.advance.le_skipBlanks)
  have ends := (c.advance.skipBlanks.advanceBy (tail + 2)).le_skipBlanks
  have front := Cursor.le_trans (c.advance.skipBlanks.le_advanceBy (tail + 2)) ends
  have inside_brace := Cursor.le_trans inside_first front
  have closing : ClosesIn start stop (c.advance.skipBlanks.advanceBy (tail + 2)).skipBlanks :=
    ⟨inside_brace, before, (eat?_eq_some_iff.mp closed).1⟩
  have first_copy := skipBlanks_advance_copy copied inside (Cursor.lt_of_le_of_lt front before)
  obtain ⟨ended', taken, behind⟩ := blockCommentTail?_copy copied closing inside_first ends ended
  have closed' := copied.eat? inside_brace within closed
  rw [← behind] at closed'
  rw [Phrase.copy, Child.respan_comment]
  refine @Reads.comment _ _ _ _ (copied.lt inside reached within)
    (readComment?_eq_some_iff.mpr ?_)
  rw [first_copy]
  refine ⟨?_, ?_, tail, ended', closed', ?_⟩
  · rw [copied.peek? inside here, opens]
  · rw [startsWith_copy copied closing (by decide) inside_first front, starts]
  · rw [taken, ← copied.spanTo inside (Cursor.le_of_lt reached) within]
    rfl

/-- Braces with a hole hold no comment in a copy either. -/
theorem readComment?_copy_eq_none
    (inside : start ≤ c)
    (within : d ≤ stop)
    (plain : readComment? c = .ok none)
    (reads : Reads level (.hole part) c.advance d) :
    readComment? (start.copy start' c) = .ok none := by
  have inside_inner := Cursor.le_trans inside c.le_advance
  have inside_first := Cursor.le_trans inside_inner c.advance.le_skipBlanks
  obtain ⟨brace, closing, front, behind⟩ := closesIn_of_reads_hole inside_inner within reads
  have before := Cursor.lt_of_le_of_lt front closing.within
  have first_copy := skipBlanks_advance_copy copied inside before
  have here := Cursor.lt_of_le_of_lt
    (Cursor.le_trans c.le_advance c.advance.le_skipBlanks) before
  by_cases opens : c.peek? = some '\x7b'
  · rw [readComment?_eq_none_iff opens] at plain
    rw [readComment?_eq_none_iff (by rw [copied.peek? inside here, opens]), first_copy,
      startsWith_copy copied closing (by decide) inside_first front]
    intro starts
    obtain ⟨tail, ended, left⟩ := plain starts
    have ends := behind _ (commentReading_of_startsWith starts ended)
    have passed := (c.advance.skipBlanks.advanceBy (tail + 2)).le_skipBlanks
    obtain ⟨ended', -, behind'⟩ := blockCommentTail?_copy copied closing inside_first
      (Cursor.le_trans passed ends) ended
    refine ⟨tail, ended', ?_⟩
    rw [behind']
    exact copied.eat?_eq_none
      (Cursor.le_trans inside_first (Cursor.le_trans (Cursor.le_advanceBy _ _) passed))
      (Cursor.lt_of_le_of_lt ends closing.within) left
  · have unopened : (start.copy start' c).eat? '\x7b' = none := by
      rw [eat?_eq_none_iff, copied.peek? inside here]
      exact opens
    unfold readComment?
    split
    · rfl
    · rename_i opened
      rw [unopened] at opened
      cases opened

theorem copies_hole
    (plain : readComment? c = .ok none)
    (unspread : startsSpread c.advance.rest = false)
    (reads : Reads level (.hole part) c.advance d)
    (reads' : (Phrase.hole part).Copies start stop start' level c.advance d) :
    (Phrase.braces (.hole ⟨part.getD (HostConstants.nullAt (c.spanTo d)), c.spanTo d⟩)).Copies
      start stop start' level c d := by
  intro inside within
  have inside_inner := Cursor.le_trans inside c.le_advance
  have inside_first := Cursor.le_trans inside_inner c.advance.le_skipBlanks
  have order := Cursor.le_trans c.le_advance reads.le
  have here := Cursor.lt_of_le_of_lt c.le_advance
    (Cursor.lt_of_lt_of_le (lt_of_reads_hole reads) within)
  obtain ⟨brace, closing, front, -⟩ := closesIn_of_reads_hole inside_inner within reads
  have copy := reads' inside_inner within
  rw [← Copied.advance inside here] at copy
  rw [Phrase.copy, Child.respan_hole, respan_getD_nullAt,
    copied.spanTo inside order within]
  refine .hole (readComment?_copy_eq_none copied inside within plain reads) ?_ copy
  rw [startsSpread_rest, skipBlanks_advance_copy copied inside
      (Cursor.lt_of_le_of_lt front closing.within),
    startsWith_copy copied closing (by decide) inside_first front, ← startsSpread_rest, unspread]

end Holes

/-! ## Headers -/

section Headers

variable {name : List Char} {value : Expression} {tail : HeaderTail Expression}

theorem copies_attributeItem
    {item : Attribute Expression}
    (copied : Copied start stop start')
    (entry : Reads level (.attribute item) c.skipBlanks middle)
    (rest : Reads level (.headerTail tail) middle d)
    (entry' : (Phrase.attribute item).Copies start stop start' level c.skipBlanks middle)
    (rest' : (Phrase.headerTail tail).Copies start stop start' level middle d) :
    (Phrase.headerTail (.cons (.named item) tail)).Copies start stop start' level c d := by
  intro inside within
  have inside_item := Cursor.le_trans inside c.le_skipBlanks
  have inside_rest := Cursor.le_trans inside_item entry.le
  have before := Cursor.lt_of_lt_of_le (skipBlanks_lt_of_reads_headerTail rest) within
  have before_item :=
    Cursor.lt_of_le_of_lt (Cursor.le_trans entry.le middle.le_skipBlanks) before
  have copy := entry' inside_item before
  rw [← copied.skipBlanks inside before_item] at copy
  exact .attributeItem copy (rest' inside_rest within)

variable (copied : Copied start stop start')

include copied

theorem copies_quotedValue
    {quote : Char}
    (isQuote : quote = '"' ∨ quote = '\'')
    (opens : c.peek? = some quote)
    (closed : (c.advance.skipWhile (· != quote)).eat? quote = some d) :
    (Phrase.attributeValue
      ⟨.string (String.ofList (c.advance.textWhile (· != quote))), c.spanTo d⟩).Copies start stop
      start' level c d := by
  intro inside within
  have before := Cursor.lt_of_lt_of_le (lt_of_eat? closed) within
  have order := Cursor.le_trans c.le_advance (c.advance.le_skipWhile (· != quote))
  have here := Cursor.lt_of_le_of_lt order before
  have inside_text := Cursor.le_trans inside c.le_advance
  obtain ⟨text, reached⟩ := copied.run inside_text before
  have closed' := copied.eat? (Cursor.le_trans inside order) within closed
  rw [← reached, ← Copied.advance inside here] at closed'
  rw [← Copied.advance inside here] at text
  rw [Phrase.copy, respan_spanTo copied inside
    (Cursor.le_trans order (Cursor.le_of_lt (lt_of_eat? closed))) within, ← text]
  refine .quotedValue isQuote ?_ closed'
  rw [copied.peek? inside here, opens]

theorem copies_holeValue
    {part : Option Expression}
    (opens : c.peek? = some '\x7b')
    (hole : Reads level (.hole part) c.advance d)
    (hole' : (Phrase.hole part).Copies start stop start' level c.advance d) :
    (Phrase.attributeValue (part.getD (HostConstants.nullAt (c.spanTo d)))).Copies start stop
      start' level c d := by
  intro inside within
  have here := Cursor.lt_of_le_of_lt c.le_advance
    (Cursor.lt_of_lt_of_le (lt_of_reads_hole hole) within)
  have copy := hole' (Cursor.le_trans inside c.le_advance) within
  rw [← Copied.advance inside here] at copy
  rw [Phrase.copy, respan_getD_nullAt,
    copied.spanTo inside (Cursor.le_trans c.le_advance hole.le) within]
  refine .holeValue ?_ copy
  rw [copied.peek? inside here, opens]

/-- A name that ends inside the text is copied. -/
theorem textWhile_copy
    (inside : start ≤ c)
    (spelled : c.textWhile (!isNameDelimiter ·) = name)
    (within : c.advanceBy name.length < stop) :
    (start.copy start' c).textWhile (!isNameDelimiter ·) = name ∧
      (start.copy start' c).advanceBy name.length =
        start.copy start' (c.advanceBy name.length) := by
  subst spelled
  obtain ⟨text, reached⟩ := copied.run (p := (!isNameDelimiter ·)) inside within
  rw [skipWhile, skipWhile, text] at reached
  exact ⟨text, reached⟩

theorem copies_bareAttribute
    (spelled : c.textWhile (!isNameDelimiter ·) = name)
    (nonempty : name ≠ [])
    (valid : attributeNameFault? name = none)
    (reached : d = c.advanceBy name.length)
    (bare : d.skipBlanks.eat? '=' = none) :
    (Phrase.attribute
      ⟨String.ofList name, HostConstants.trueAt (c.spanTo d), c.spanTo d⟩).Copies start stop start'
      level c d := by
  intro inside before
  have within := Cursor.lt_of_le_of_lt d.le_skipBlanks before
  have order : c ≤ d := ⟨_, reached⟩
  have inside_end := Cursor.le_trans inside order
  have span := copied.spanTo inside order (Cursor.le_of_lt within)
  obtain ⟨spelled', reached'⟩ := textWhile_copy copied inside spelled (reached ▸ within)
  have value : (HostConstants.trueAt (c.spanTo d) : Expression).respan (start.respan start') =
      HostConstants.trueAt ((start.copy start' c).spanTo (start.copy start' d)) := by
    rw [← span]
    exact Expression.respan_mk _ _ _
  rw [Phrase.copy, value, span]
  refine .bareAttribute spelled' nonempty valid (reached'.trans (reached ▸ rfl)).symm ?_
  rw [copied.skipBlanks inside_end before]
  exact copied.eat?_eq_none (Cursor.le_trans inside_end d.le_skipBlanks) before bare

theorem copies_valuedAttribute
    (spelled : c.textWhile (!isNameDelimiter ·) = name)
    (nonempty : name ≠ [])
    (valid : attributeNameFault? name = none)
    (equals : (c.advanceBy name.length).skipBlanks.eat? '=' = some behind)
    (reads : Reads level (.attributeValue value) behind.skipBlanks d)
    (reads' : (Phrase.attributeValue value).Copies start stop start' level behind.skipBlanks d) :
    (Phrase.attribute ⟨String.ofList name, value, c.spanTo d⟩).Copies start stop start' level c
      d := by
  intro inside before
  have within := Cursor.lt_of_le_of_lt d.le_skipBlanks before
  have passed := Cursor.le_trans behind.le_skipBlanks reads.le
  have before_value := Cursor.lt_of_le_of_lt reads.le within
  have before_behind := Cursor.lt_of_le_of_lt behind.le_skipBlanks before_value
  have before_equals := Cursor.lt_of_le_of_lt (Cursor.le_of_lt (lt_of_eat? equals)) before_behind
  have named := (c.advanceBy name.length).le_skipBlanks
  have inside_named := Cursor.le_trans inside (c.le_advanceBy name.length)
  have inside_equals := Cursor.le_trans inside_named named
  have inside_behind := Cursor.le_trans inside_equals (Cursor.le_of_lt (lt_of_eat? equals))
  have order := Cursor.le_trans (Cursor.le_trans (c.le_advanceBy name.length) named)
    (Cursor.le_trans (Cursor.le_of_lt (lt_of_eat? equals)) passed)
  obtain ⟨spelled', reached⟩ := textWhile_copy copied inside spelled
    (Cursor.lt_of_le_of_lt named before_equals)
  have copy := reads' (Cursor.le_trans inside_behind behind.le_skipBlanks) (Cursor.le_of_lt within)
  rw [← copied.skipBlanks inside_behind before_value] at copy
  rw [Phrase.copy, copied.spanTo inside order (Cursor.le_of_lt within)]
  refine .valuedAttribute spelled' nonempty valid ?_ copy
  rw [reached, copied.skipBlanks inside_named before_equals]
  exact copied.eat? inside_equals (Cursor.le_of_lt before_behind) equals

theorem copies_headerEnd (closed : c.skipBlanks.eat? '>' = some d) :
    (Phrase.headerTail ([], .content)).Copies start stop start' level c d := by
  intro inside within
  refine .headerEnd ?_
  rw [copied.skipBlanks inside (Cursor.lt_of_lt_of_le (lt_of_eat? closed) within)]
  exact copied.eat? (Cursor.le_trans inside c.le_skipBlanks) within closed

theorem copies_selfClosingEnd (closed : c.skipBlanks.eatText? "/>" = some d) :
    (Phrase.headerTail ([], .selfClosing)).Copies start stop start' level c d := by
  intro inside within
  refine .selfClosingEnd ?_
  rw [copied.skipBlanks inside (Cursor.lt_of_lt_of_le (lt_of_eatText? (by decide) closed) within)]
  exact copied.eatText? (Cursor.le_trans inside c.le_skipBlanks) within closed

theorem copies_spreadItem
    (opened : c.skipBlanks.eat? '\x7b' = some behind)
    (spread : Reads level (.spread value) behind middle)
    (rest : Reads level (.headerTail tail) middle d)
    (spread' : (Phrase.spread value).Copies start stop start' level behind middle)
    (rest' : (Phrase.headerTail tail).Copies start stop start' level middle d) :
    (Phrase.headerTail (.cons (.spread ⟨value, c.skipBlanks.spanTo middle⟩) tail)).Copies start
      stop start' level c d := by
  intro inside within
  have passed := Cursor.le_of_lt (lt_of_eat? opened)
  have before_middle := Cursor.le_trans rest.le within
  have before_behind := Cursor.le_trans spread.le before_middle
  have before := Cursor.lt_of_lt_of_le (lt_of_eat? opened) before_behind
  have inside_first := Cursor.le_trans inside c.le_skipBlanks
  have inside_behind := Cursor.le_trans inside_first passed
  have span := copied.spanTo inside_first (Cursor.le_trans passed spread.le) before_middle
  have opened' := copied.eat? inside_first before_behind opened
  rw [← copied.skipBlanks inside before] at opened' span
  rw [Phrase.copy, HeaderTail.cons, List.map_cons, AttributeItem.respan_spread, span]
  exact .spreadItem opened' (spread' inside_behind before_middle)
    (rest' (Cursor.le_trans inside_behind spread.le) within)

theorem copies_fragmentHeader (closed : c.skipBlanks.eat? '>' = some d) :
    (Phrase.header ⟨"", [], .content⟩).Copies start stop start' level c d := by
  intro inside within
  refine .fragmentHeader ?_
  rw [copied.skipBlanks inside (Cursor.lt_of_lt_of_le (lt_of_eat? closed) within)]
  exact copied.eat? (Cursor.le_trans inside c.le_skipBlanks) within closed

theorem copies_namedHeader
    {tagName : String}
    {named : Cursor}
    {reached : c.skipBlanks ≤ named}
    (read : readTagName c.skipBlanks = .ok ⟨tagName, named, reached⟩)
    (rest : Reads level (.headerTail tail) named d)
    (rest' : (Phrase.headerTail tail).Copies start stop start' level named d) :
    (Phrase.header ⟨tagName, tail.1, tail.2⟩).Copies start stop start' level c d := by
  intro inside within
  have inside_name := Cursor.le_trans inside c.le_skipBlanks
  have inside_rest := Cursor.le_trans inside_name reached
  have before := Cursor.lt_of_le_of_lt named.le_skipBlanks
    (Cursor.lt_of_lt_of_le (skipBlanks_lt_of_reads_headerTail rest) within)
  have spelled := rest_of_readTagName read
  have passes := copied.passes inside_name (Cursor.le_of_lt before)
    ⟨spelled, eq_advanceBy_of_rest reached spelled⟩
  have ends : EndsTagName (start.copy start' named).rest := by
    intro ch next
    exact endsTagName_of_readTagName read ch ((copied.peek? inside_rest before).symm.trans next)
  rw [← copied.skipBlanks inside (Cursor.lt_of_le_of_lt reached before)] at passes
  obtain ⟨reached', read'⟩ := readTagName_eq_ok (isTagName_of_readTagName read) passes ends
  rw [String.ofList_toList] at read'
  exact @Reads.namedHeader _ _ (tail.1.map (·.respan (start.respan start')), tail.2) _ _ _
    reached' read' (rest' inside_rest within)

end Headers

/-! ## Elements -/

section Elements

variable
  {length : Nat}
  {name : String}
  {left right : Boundary}
  {children : List (Child Expression)}
  (copied : Copied start stop start')

include copied

theorem take_copy
    (inside : start ≤ c)
    (fits : length ≤ c.size)
    (within : c.advanceBy length ≤ stop) :
    (start.copy start' c).rest.take length = c.rest.take length := by
  have passes := copied.passes inside within (c.passes_take fits)
  rw [passes.1, List.take_left' (List.length_take_of_le fits)]

/-- Literal text is copied with its span. -/
theorem literalText_copy
    (inside : start ≤ c)
    (fits : length ≤ c.size)
    (within : c.advanceBy length ≤ stop) :
    (literalText c length left right).map (·.respan (start.respan start')) =
      (literalText (start.copy start' c) length left right : List (Child Expression)) := by
  have reached : start.copy start' (c.advanceBy length) =
      (start.copy start' c).advanceBy length := copy_advanceBy inside fits
  have span := copied.spanTo inside (c.le_advanceBy length) within
  rw [reached] at span
  rw [literalText, literalText, take_copy copied inside fits within]
  split
  · rw [List.map_singleton, Child.respan_text, LiteralText.respan, span]
  · rfl

/-- The next mark is copied with the text in front of it. -/
theorem next_copy
    {mark : ContentMark}
    (inside : start ≤ c)
    (within : c.advanceBy length < stop)
    (found : ContentMark.next c.rest = (length, mark))
    (more : mark ≠ .endOfInput)
    (found' : ContentMark.next (start.copy start' (c.advanceBy length)).rest = (0, mark)) :
    ContentMark.next (start.copy start' c).rest = (length, mark) ∧
      start.copy start' (c.advanceBy length) = (start.copy start' c).advanceBy length := by
  obtain ⟨fits, unmarked, marked⟩ := ContentMark.unmarked_of_next found
  have reached : start.copy start' (c.advanceBy length) =
      (start.copy start' c).advanceBy length := copy_advanceBy inside fits
  have passes' := copied.passes inside (Cursor.le_of_lt within) (c.passes_take fits)
  have starts' := startsMark_of_next found' more
  refine ⟨?_, reached⟩
  rw [passes'.1, ContentMark.next_append
    (unmarked.exchange (startsMark_of_next marked more) starts'), found',
    List.length_take_of_le fits]
  rfl

theorem copies_closeContent
    {reached : c.advanceBy length < d}
    (found : ContentMark.next c.rest = (length, .closingTag))
    (closing : readClosingTag (c.advanceBy length) name = .ok ⟨name, d, reached⟩) :
    (Phrase.content name left (literalText c length left .tag)).Copies start stop start' level c
      d := by
  intro inside within
  obtain ⟨fits, -, marked⟩ := ContentMark.unmarked_of_next found
  obtain ⟨more, ahead⟩ := ContentMark.exists_of_next_closingTag marked
  rw [← rest_advanceBy] at ahead
  obtain ⟨-, before, behind, blank, blank', spelled⟩ := closesTag_of_readClosingTag ahead closing
  have inside_tag := Cursor.le_trans inside (c.le_advanceBy length)
  have before_tag := Cursor.lt_of_lt_of_le reached within
  have passes := copied.passes inside_tag within (passes_textTo (Cursor.le_of_lt reached))
  rw [spelled] at passes
  have closes := ContentMark.next_closingTag
    (before ++ name.toList ++ behind ++ ['>'] ++ (start.copy start' d).rest)
  obtain ⟨found', moved⟩ := next_copy copied inside before_tag found (by decide)
    (by rw [passes.1]; exact closes)
  rw [moved] at passes
  obtain ⟨reached', closing'⟩ := readClosingTag_eq_ok (isTagName_of_readClosingTag closing) blank
    blank' (by simpa using passes)
  rw [Phrase.copy, literalText_copy copied inside fits (Cursor.le_of_lt before_tag)]
  rw [String.ofList_toList] at closing'
  exact .closeContent found' closing'

theorem copies_elementChild
    {element : Element Expression}
    (found : ContentMark.next c.rest = (length, .openingTag))
    (reads : Reads level (.element element) (c.advanceBy length) middle)
    (rest : Reads level (.content name .tag children) middle d)
    (reads' : (Phrase.element element).Copies start stop start' level (c.advanceBy length) middle)
    (rest' : (Phrase.content name .tag children).Copies start stop start' level middle d) :
    (Phrase.content name left
      (literalText c length left .tag ++ .element element :: children)).Copies start stop start'
      level c d := by
  intro inside within
  obtain ⟨fits, -⟩ := ContentMark.unmarked_of_next found
  have inside_child := Cursor.le_trans inside (c.le_advanceBy length)
  have before_rest := Cursor.le_trans rest.le within
  have before_child := Cursor.lt_of_lt_of_le (span_of_reads_element reads).1 before_rest
  have copy := reads' inside_child before_rest
  obtain ⟨found', moved⟩ := next_copy copied inside before_child found (by decide)
    (ContentMark.next_of_startsMarkup (startsMarkup_of_element ⟨level, copy⟩))
  rw [moved] at copy
  rw [Phrase.copy, List.map_append, List.map_cons, Child.respan_element,
    literalText_copy copied inside fits (Cursor.le_of_lt before_child)]
  exact .elementChild found' copy (rest' (Cursor.le_trans inside_child reads.le) within)

theorem copies_bracesChild
    {child : Child Expression}
    (found : ContentMark.next c.rest = (length, .brace))
    (reads : Reads level (.braces child) (c.advanceBy length) middle)
    (rest : Reads level (.content name .hole children) middle d)
    (reads' : (Phrase.braces child).Copies start stop start' level (c.advanceBy length) middle)
    (rest' : (Phrase.content name .hole children).Copies start stop start' level middle d) :
    (Phrase.content name left (literalText c length left .hole ++ child :: children)).Copies start
      stop start' level c d := by
  intro inside within
  obtain ⟨fits, -, marked⟩ := ContentMark.unmarked_of_next found
  obtain ⟨more, ahead⟩ := ContentMark.exists_of_next_brace marked
  rw [← rest_advanceBy] at ahead
  have inside_child := Cursor.le_trans inside (c.le_advanceBy length)
  have before_rest := Cursor.le_trans rest.le within
  have before_child := Cursor.lt_of_lt_of_le (span_of_reads_braces reads).1 before_rest
  have opens := copied.peek? inside_child before_child
  rw [peek?_eq_some_iff.mpr ⟨more, ahead⟩] at opens
  obtain ⟨more', ahead'⟩ := peek?_eq_some_iff.mp opens
  obtain ⟨found', moved⟩ := next_copy copied inside before_child found (by decide)
    (by rw [ahead']; exact ContentMark.next_brace more')
  have copy := reads' inside_child before_rest
  rw [moved] at copy
  rw [Phrase.copy, List.map_append, List.map_cons,
    literalText_copy copied inside fits (Cursor.le_of_lt before_child)]
  exact .bracesChild found' copy (rest' (Cursor.le_trans inside_child reads.le) within)

theorem copies_selfClosingElement
    {header : Header Expression}
    (opened : c.eat? '<' = some behind)
    (reads : Reads level (.header header) behind d)
    (ending : header.ending = .selfClosing)
    (reads' : (Phrase.header header).Copies start stop start' level behind d) :
    (Phrase.element (.selfClosing header.name header.attributes (c.spanTo d))).Copies start stop
      start' (level + 1) c d := by
  intro inside within
  have entered := Cursor.le_of_lt (lt_of_eat? opened)
  rw [Phrase.copy, Element.selfClosing, Element.respan_mk,
    copied.spanTo inside (Cursor.le_trans entered reads.le) within]
  exact .selfClosingElement (copied.eat? inside (Cursor.le_trans reads.le within) opened)
    (reads' (Cursor.le_trans inside entered) within) ending

theorem copies_closedElement
    {header : Header Expression}
    (opened : c.eat? '<' = some behind)
    (reads : Reads level (.header header) behind middle)
    (ending : header.ending = .content)
    (content : Reads level (.content header.name .tag children) middle d)
    (reads' : (Phrase.header header).Copies start stop start' level behind middle)
    (content' : (Phrase.content header.name .tag children).Copies start stop start' level middle
      d) :
    (Phrase.element ⟨header.name, header.attributes, children, some header.name,
      c.spanTo d⟩).Copies start stop start' (level + 1) c d := by
  intro inside within
  have entered := Cursor.le_of_lt (lt_of_eat? opened)
  have inside_header := Cursor.le_trans inside entered
  have before_content := Cursor.le_trans content.le within
  rw [Phrase.copy, Element.respan_mk, copied.spanTo inside
    (Cursor.le_trans entered (Cursor.le_trans reads.le content.le)) within]
  exact .closedElement (copied.eat? inside (Cursor.le_trans reads.le before_content) opened)
    (reads' inside_header before_content) ending
    (content' (Cursor.le_trans inside_header reads.le) within)

end Elements

/-- Whatever stands inside the text is read at its copy as well. -/
theorem Reads.copies
    {phrase : Phrase}
    (copied : Copied start stop start')
    (reads : Reads level phrase c d) :
    phrase.Copies start stop start' level c d := by
  induction reads with
  | expression skipped operand continuation operand' continuation' =>
      exact copies_expression copied skipped operand continuation operand' continuation'
  | stop next weak => exact copies_stop copied next weak
  | connect next connects strong connection continuation connection' continuation' =>
      exact copies_connect copied next connects strong connection continuation connection'
        continuation'
  | binary _ operand' => exact fun inside inHole => .binary (operand' inside inHole)
  | assign assignable _ value' => exact copies_assign assignable value'
  | ternary ifTrue colon ifFalse ifTrue' ifFalse' =>
      exact copies_ternary copied ifTrue colon ifFalse ifTrue' ifFalse'
  | absent next => exact copies_absent copied next
  | present next other part part' => exact copies_present copied next other part part'
  | markup skipped starts element element' =>
      exact copies_markup copied skipped starts element element'
  | not skipped plain next inner inner' =>
      exact copies_signed copied .not skipped plain next inner inner'
  | negate skipped plain next inner inner' =>
      exact copies_signed copied .negate skipped plain next inner inner'
  | unsigned skipped plain next not_not not_minus primary accesses primary' accesses' =>
      exact copies_unsigned copied skipped plain next not_not not_minus primary accesses primary'
        accesses'
  | leaf skipped next leaf => exact copies_leaf copied skipped next leaf
  | name skipped next alone => exact copies_name copied skipped next alone
  | arrayCall skipped next array opened entries entries' =>
      exact copies_arrayCall copied skipped next array opened entries entries'
  | array skipped next entries entries' => exact copies_array copied skipped next entries entries'
  | function skipped next function function' =>
      exact copies_function copied skipped next function function'
  | parenthesized next inner closed inner' =>
      exact copies_parenthesized copied next inner closed inner'
  | noParameters next => exact copies_noParameters copied next
  | lastParameter next other maybe identifier read comma closed =>
      exact copies_lastParameter copied next other maybe identifier read comma closed
  | moreParameters next other maybe identifier read comma list list' =>
      exact copies_moreParameters copied next other maybe identifier read comma list list'
  | arrowFunction next list arrow body list' body' =>
      exact copies_arrowFunction copied next list arrow body list' body'
  | plainEntry skipped ellipsis value plain value' =>
      exact copies_plainEntry copied skipped ellipsis value plain value'
  | keyedEntry skipped ellipsis key next value key' value' =>
      exact copies_keyedEntry copied skipped ellipsis key next value key' value'
  | noEntries next => exact copies_noEntries copied next
  | lastEntry next other item comma closed item' =>
      exact copies_lastEntry copied next other item comma closed item'
  | moreEntries next other item comma items item' items' =>
      exact copies_moreEntries copied next other item comma items item' items'
  | plainMember next follows other => exact copies_plainMember copied next follows other
  | calledMember next opened entries entries' =>
      exact copies_calledMember copied next opened entries entries'
  | memberAccess next member member' => exact copies_memberAccess copied next member member'
  | entryAccess next index closed index' =>
      exact copies_entryAccess copied next index closed index'
  | callAccess next callable entries entries' =>
      exact copies_callAccess copied next callable entries entries'
  | staticAccess next isName member member' =>
      exact copies_staticAccess copied next isName member member'
  | noAccess next other => exact copies_noAccess copied next other
  | moreAccesses access accesses access' accesses' =>
      exact copies_moreAccesses copied access accesses access' accesses'
  | emptyHole closed => exact copies_emptyHole copied closed
  | filledHole filled inner closed inner' =>
      exact copies_filledHole copied filled inner closed inner'
  | spread dots inner closed inner' => exact copies_spread copied dots inner closed inner'
  | quotedValue isQuote opens closed => exact copies_quotedValue copied isQuote opens closed
  | holeValue opens hole hole' => exact copies_holeValue copied opens hole hole'
  | bareAttribute spelled nonempty valid reached bare =>
      exact copies_bareAttribute copied spelled nonempty valid reached bare
  | valuedAttribute spelled nonempty valid equals value value' =>
      exact copies_valuedAttribute copied spelled nonempty valid equals value value'
  | headerEnd closed => exact copies_headerEnd copied closed
  | selfClosingEnd closed => exact copies_selfClosingEnd copied closed
  | spreadItem opened spread rest spread' rest' =>
      exact copies_spreadItem copied opened spread rest spread' rest'
  | attributeItem item rest item' rest' => exact copies_attributeItem copied item rest item' rest'
  | fragmentHeader closed => exact copies_fragmentHeader copied closed
  | namedHeader read rest rest' => exact copies_namedHeader copied read rest rest'
  | selfClosingElement opened header ending header' =>
      exact copies_selfClosingElement copied opened header ending header'
  | closedElement opened header ending content header' content' =>
      exact copies_closedElement copied opened header ending content header' content'
  | comment found => exact copies_comment copied found
  | hole plain unspread hole hole' => exact copies_hole copied plain unspread hole hole'
  | closeContent found closing => exact copies_closeContent copied found closing
  | elementChild found element rest element' rest' =>
      exact copies_elementChild copied found element rest element' rest'
  | bracesChild found braces rest braces' rest' =>
      exact copies_bracesChild copied found braces rest braces' rest'

/-! ## Copies of elements -/

theorem opens_of_reads_element
    {element : Element Expression}
    (reads : Reads level (.element element) c d) :
    c.peek? = some '<' := by
  cases reads with
  | selfClosingElement opened => exact (eat?_eq_some_iff.mp opened).1
  | closedElement opened => exact (eat?_eq_some_iff.mp opened).1

/-- Elements end with a bracket. -/
theorem exists_bracket_of_reads_element
    {element : Element Expression}
    (reads : Reads level (.element element) c d) :
    ∃ last, c ≤ last ∧ last.eat? '>' = some d := by
  cases reads with
  | selfClosingElement opened header ending =>
      obtain ⟨named, last, opens, tiling, closed⟩ := opensTag_of_reads_header opened header
      rw [ending] at closed
      obtain ⟨⟨more, ahead⟩, rfl⟩ := eatText?_eq_some_iff.mp closed
      have passes : last.Passes ['/', '>'] (last.advanceBy 2) := passes_advanceBy ahead.symm
      exact ⟨last.advance, Cursor.le_trans opens.1 (Cursor.le_trans tiling.le last.le_advance),
        (passes_cons.mp passes).2.eat?⟩
  | closedElement opened header _ content =>
      obtain ⟨closing, tiling, closed, before, behind, -, -, spelled⟩ := tiling_of_reads content
      have passes := passes_textTo closed
      rw [spelled, ← List.cons_append, ← List.cons_append] at passes
      obtain ⟨last, passed, bracket⟩ := passes_append.mp passes
      have entered := Cursor.le_of_lt (lt_of_eat? opened)
      exact ⟨last, Cursor.le_trans entered
        (Cursor.le_trans header.le (Cursor.le_trans tiling.le passed.le)), bracket.eat?⟩

theorem stopsVisibly_of_reads_element
    {element : Element Expression}
    (reads : Reads level (.element element) c d) :
    c.StopsVisibly d := by
  obtain ⟨last, reached, bracket⟩ := exists_bracket_of_reads_element reads
  exact (StopsVisibly.of_eat? bracket rfl (by decide)).of_le reached

/-- Where an element is read, a tag may open. -/
theorem admits_of_yields_readElement
    {modes after : ModeStack}
    {element : Element Expression}
    (proper : modes.frames ≠ [])
    (yields : (readElement hostDelegate modes start).Yields element after stop) :
    modes.Admits modes.levels := by
  refine ⟨proper, ?_, Nat.le_refl _⟩
  rw [readElement, readElementBehind] at yields
  split at yields
  · exact absurd yields Outcome.not_yields_failure
  · rw [Outcome.yields_afterStep] at yields
    obtain ⟨_, _, allowed, -⟩ := yields
    exact (ModeStack.openTag_eq_ok.mp allowed).1

/--
An element that is read somewhere in a source is read, in the same modes, wherever the same text is
ahead.  It ends with that text, it leaves the same modes, and it differs in its spans alone: they
are moved as the start is.
-/
theorem readElement_copied
    {source source' : String}
    {modes after : ModeStack}
    {element : Element Expression}
    (place : .ofText source ≤ start)
    (place' : .ofText source' ≤ start')
    (proper : modes.frames ≠ [])
    (read : (readElement hostDelegate modes start).Yields element after stop)
    (ahead : start.textTo stop <+: start'.rest) :
    ∃ stop',
      (readElement hostDelegate modes start').Yields
          (element.respan (Span.moved start.position start'.position)) after stop' ∧
        start'.Passes (start.textTo stop) stop' ∧
        stop'.position.offset =
          start'.position.offset + (stop.position.offset - start.position.offset) := by
  obtain ⟨rfl, reads⟩ := reads_of_readElement proper read
  have admits := admits_of_yields_readElement proper read
  have copied : Copied start stop start' := {
    le := reads.le
    ahead := ahead
    opens := ⟨_, opens_of_reads_element reads, rfl⟩
    closes := stopsVisibly_of_reads_element reads
    column_pos := column_pos_ofText place
    column_pos' := column_pos_ofText place' }
  have copy := reads.copies copied start.le_refl stop.le_refl
  rw [copy_self] at copy
  have passes := copied.passes start.le_refl stop.le_refl (passes_textTo reads.le)
  rw [copy_self] at passes
  have moved := (copied.position reads.le stop.le_refl).offset
  have order := offset_le_of_le reads.le
  exact ⟨start.copy start' stop, copy.yields_readElement admits, passes, by omega⟩

/-- In another source, behind other text on another line and in front of other text. -/
theorem readElement_copied_greeting :
    ∃ budget element stop stop',
      (readElement hostDelegate (.initial budget)
          (.ofText "<a x = '1'> hi {$y}<b /></a >")).Yields element (.initial budget) stop ∧
        (readElement hostDelegate (.initial budget)
            ((Cursor.ofText "$z =\n <a x = '1'> hi {$y}<b /></a >;").advanceBy 6)).Yields
          (element.respan (Span.moved Position.origin ⟨6, 2, 2⟩)) (.initial budget) stop' ∧
        stop'.position.offset = 6 + 29 := by
  have written : IsElement "<a x = '1'> hi {$y}<b /></a >".toList greeting :=
    writes_greeting.isReadAs
  have passes := @passes_advanceBy (.ofText "<a x = '1'> hi {$y}<b /></a >") _ []
    (List.append_nil _).symm
  obtain ⟨element, -, budget, reads⟩ := written passes
  have read := reads.yields_readElement (ModeStack.admits_initial budget)
  have ahead {stop : Cursor}
      (passes : (Cursor.ofText "<a x = '1'> hi {$y}<b /></a >").Passes
        "<a x = '1'> hi {$y}<b /></a >".toList stop) :
      (Cursor.ofText "<a x = '1'> hi {$y}<b /></a >").textTo stop <+:
        ((Cursor.ofText "$z =\n <a x = '1'> hi {$y}<b /></a >;").advanceBy 6).rest := by
    rw [textTo_eq_of_rest passes.1]
    exact ⟨[';'], rfl⟩
  obtain ⟨stop', read', -, offset⟩ := readElement_copied (Cursor.le_refl _)
    (Cursor.le_advanceBy _ 6) (List.cons_ne_nil _ _) read (ahead passes)
  exact ⟨budget, element, _, stop', read, read', offset⟩

end EmbeddedMarkup
