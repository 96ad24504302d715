import EmbeddedMarkup.Proofs.HostText.Units

/-!
# Casts and keywords of host text

The names of types that a cast may hold are plain names to a reader of expressions.  So what a
scanner takes for a cast is a name in parentheses, with blanks around it that do not leave the
line.
-/

namespace EmbeddedMarkup

open Cursor

variable {c d : Cursor} {ch : Char} {word : List Char} {words others : List String}
  {length : Nat}

theorem isAlpha_of_toLower (letter : ch.toLower.isAlpha = true) : ch.isAlpha = true := by
  unfold Char.toLower at letter
  split at letter
  · rename_i upper
    have isUpper : ch.isUpper = true := by
      rw [isUpper_iff]
      exact ⟨UInt32.le_iff_toNat_le.mp upper.1, UInt32.le_iff_toNat_le.mp upper.2⟩
    exact isAlpha_iff.mpr (.inl (isUpper_iff.mp isUpper))
  · exact letter

theorem isAmongWords_eq_true_iff :
    isAmongWords word words = true ↔
      ∃ entry ∈ words, entry.toList.map Char.toLower = word.map Char.toLower := by
  simp only [isAmongWords, sameWord, List.any_eq_true, beq_iff_eq, String.toList_ofList]

/-- A word that is among some words is not among others that differ from all of them. -/
theorem isAmongWords_eq_false
    (among : isAmongWords word words = true)
    (differ : ∀ entry ∈ words, isAmongWords entry.toList others = false) :
    isAmongWords word others = false := by
  obtain ⟨entry, member, same⟩ := isAmongWords_eq_true_iff.mp among
  have other := differ entry member
  rw [Bool.eq_false_iff, ne_eq, isAmongWords_eq_true_iff] at other ⊢
  rwa [← same]

/-- The operators that are words are among the keywords behind which an expression may start. -/
theorem isAmongWords_of_binding?
    {text : String}
    {binding : Binding}
    (connects : (WordKind.ofText text).binding? = some binding) :
    isAmongWords text.toList expressionKeywords = true := by
  have spelled (keyword : String) (same : sameWord text keyword = true)
      (member : keyword ∈ expressionKeywords) :
      isAmongWords text.toList expressionKeywords = true :=
    isAmongWords_eq_true_iff.mpr ⟨keyword, member, (beq_iff_eq.mp same).symm⟩
  unfold WordKind.ofText at connects
  split at connects
  · cases connects
  · split at connects
    · rename_i same
      exact spelled "and" same (by decide)
    · split at connects
      · rename_i same
        exact spelled "or" same (by decide)
      · split at connects
        · rename_i same
          exact spelled "xor" same (by decide)
        · cases connects

/-- A word that is among words of letters is made of letters. -/
theorem isAlpha_of_isAmongWords
    (among : isAmongWords word words = true)
    (letters : ∀ entry ∈ words, ∀ ch ∈ entry.toList.map Char.toLower, ch.isAlpha = true) :
    ∀ ch ∈ word, ch.isAlpha = true := by
  obtain ⟨entry, member, same⟩ := isAmongWords_eq_true_iff.mp among
  have letters := letters entry member
  rw [same] at letters
  exact fun ch inside => isAlpha_of_toLower (letters _ (List.mem_map_of_mem inside))

/-- A word with a backslash is no keyword. -/
theorem not_keyword_of_backslash (qualified : '\\' ∈ word) :
    isAmongWords word expressionKeywords = false := by
  rw [Bool.eq_false_iff]
  intro keyword
  cases isAlpha_of_isAmongWords keyword (by decide) _ qualified

section CastTypes

variable (cast : isAmongWords word castTypes = true)

include cast

/-- The name of a type is made of letters. -/
theorem isAlpha_of_castType : word ≠ [] ∧ ∀ ch ∈ word, ch.isAlpha = true := by
  refine ⟨?_, isAlpha_of_isAmongWords cast (by decide)⟩
  rintro rfl
  revert cast
  decide

/-- No name of a type is a keyword. -/
theorem not_keyword_of_castType : isAmongWords word expressionKeywords = false :=
  isAmongWords_eq_false cast (by decide)

/-- The name of a type is a plain name. -/
theorem ofText_castType : WordKind.ofText (String.ofList word) = .identifier := by
  have other (keyword : String) (differ : ∀ entry ∈ castTypes,
      isAmongWords entry.toList [keyword] = false) :
      sameWord (String.ofList word) keyword = false := by
    have none := isAmongWords_eq_false cast differ
    rw [Bool.eq_false_iff, ne_eq, isAmongWords_eq_true_iff] at none
    rw [Bool.eq_false_iff]
    intro same
    refine none ⟨keyword, List.mem_singleton_self _, ?_⟩
    rw [sameWord, beq_iff_eq, String.toList_ofList] at same
    exact same.symm
  simp only [WordKind.ofText, other "fn" (by decide), other "and" (by decide),
    other "or" (by decide), other "xor" (by decide)]
  rfl

end CastTypes

/-! ## Where a cast ends -/

namespace Cursor

/-- Move over blanks that do not leave the line. -/
def skipInline (c : Cursor) : Cursor :=
  c.skipWhile isInlineBlank

/-- The place where a cast is closed, if one is ahead. -/
def castEnd (c : Cursor) : Cursor :=
  (c.skipInline.skipWhile isIdentifierChar).skipInline

end Cursor

/-- A cast is the name of a type up to the parenthesis that closes it. -/
theorem exists_castTail?_eq (c : Cursor) :
    ∃ length, c.advanceBy length = c.castEnd.advance ∧
      castTail? c.rest =
        if c.castEnd.peek? = some ')' ∧
            isAmongWords (c.skipInline.textWhile isIdentifierChar) castTypes = true then
          some length
        else none := by
  have inside : c.skipInline = c.advanceBy (c.rest.takeWhile isInlineBlank).length := rfl
  have named : c.skipInline.skipWhile isIdentifierChar =
      c.advanceBy ((c.rest.takeWhile isInlineBlank).length +
        (c.skipInline.textWhile isIdentifierChar).length) := by
    rw [skipWhile, ← advanceBy_advanceBy, ← inside]
  have closed : c.castEnd =
      c.advanceBy ((c.rest.takeWhile isInlineBlank).length +
        (c.skipInline.textWhile isIdentifierChar).length +
        ((c.skipInline.skipWhile isIdentifierChar).textWhile isInlineBlank).length) := by
    rw [castEnd, skipInline, skipWhile, ← advanceBy_advanceBy, ← named]
  refine ⟨(c.rest.takeWhile isInlineBlank).length +
    (c.skipInline.textWhile isIdentifierChar).length +
    ((c.skipInline.skipWhile isIdentifierChar).textWhile isInlineBlank).length + 1, ?_, ?_⟩
  · rw [advance_eq_advanceBy, closed, advanceBy_advanceBy]
  · simp only [textWhile] at named closed
    simp only [castTail?, ← rest_advanceBy, ← inside, ← named, ← closed, textWhile, peek?,
      Bool.and_eq_true, decide_eq_true_eq]
    rfl

theorem isBlank_of_isInlineBlank (inline : isInlineBlank ch = true) : isBlank ch = true := by
  simp only [isInlineBlank, Bool.or_eq_true, beq_iff_eq] at inline
  rcases inline with rfl | rfl <;> decide

/-- Blanks that do not leave the line are all the trivia in front of other text. -/
theorem skipTrivia_skipInline
    (ahead : c.skipInline.peek? = some ch)
    (visible : isBlank ch = false)
    (hash : ch ≠ '#')
    (slash : ch ≠ '/') :
    skipTrivia c = ⟨.ok (), c.skipInline⟩ := by
  have inline : ∀ ch ∈ c.textWhile isInlineBlank, isBlank ch = true :=
    fun ch member => isBlank_of_isInlineBlank (forall_mem_takeWhile _ _ ch member)
  have blanks : c.skipBlanks = c.skipInline :=
    (c.passes_skipWhile isInlineBlank).skipBlanks inline ahead visible
  rw [← blanks]
  apply skipTrivia_eq_skipBlanks
  obtain ⟨rest, ahead⟩ := peek?_eq_some_iff.mp ahead
  rw [blanks, ahead]
  exact CommentReading.ofChars_absent hash fun same => absurd same slash

/-- Blanks that do not leave the line are skipped up to where a character follows that is none. -/
theorem eq_of_peek?_skipInline
    (ahead : c.peek? = some ch)
    (visible : isInlineBlank ch = false) :
    c.skipInline = c := by
  apply skipWhile_eq_self
  intro ch' ahead'
  rw [ahead] at ahead'
  cases ahead'
  exact visible

theorem isNameChar_of_isAlpha (letter : ch.isAlpha = true) : isNameChar ch = true := by
  rw [isNameChar, isIdentifierChar, Char.isAlphanum, letter, Bool.true_or, Bool.true_or,
    Bool.true_or]

/-- A name in front of another character is the lexeme that is read. -/
theorem ofChars_of_name
    (passes : c.Passes (ch :: word) d)
    (starts : (isIdentifierStart ch || ch == '\\') = true)
    (chars : ∀ ch' ∈ ch :: word, isNameChar ch' = true)
    (ends : ∀ ch', d.peek? = some ch' → isNameChar ch' = false) :
    LexemeReading.ofChars c.rest =
      .found (.word (.ofText (String.ofList (ch :: word))) (String.ofList (ch :: word)))
        (ch :: word).length := by
  have name := passes.textWhile chars ends
  obtain ⟨rest, ahead⟩ := peek?_eq_some_iff.mp (passes_cons.mp passes).1
  rw [textWhile, ahead] at name
  rw [ahead, LexemeReading.ofChars, LexemeReading.startingWith_eq_word starts, LexemeReading.word,
    name]

/-- What stands in front of the end of a cast is no part of a name. -/
theorem isNameChar_eq_false_of_skipInline
    (closed : d.skipInline.peek? = some ')')
    (ahead : d.peek? = some ch) :
    isNameChar ch = false := by
  cases inline : isInlineBlank ch with
  | true =>
      simp only [isInlineBlank, Bool.or_eq_true, beq_iff_eq] at inline
      rcases inline with rfl | rfl <;> decide
  | false =>
      rw [eq_of_peek?_skipInline ahead inline, ahead] at closed
      cases closed
      decide

/-- A cast that is ahead holds the name of a type, which is the next lexeme. -/
theorem of_castTail? (found : castTail? c.rest = some length) :
    ∃ name named, skipTrivia c = ⟨.ok (), c.skipInline⟩ ∧
      NextLexeme c (.word .identifier name) named ∧
      isAmongWords name.toList castTypes = true ∧
      named.skipInline.peek? = some ')' ∧ c.advanceBy length = named.skipInline.advance := by
  obtain ⟨length', reached, found'⟩ := exists_castTail?_eq c
  rw [found] at found'
  split at found'
  · rename_i cast
    obtain ⟨closed, among⟩ := cast
    cases found'
    obtain ⟨nonempty, letters⟩ := isAlpha_of_castType among
    have passes := c.skipInline.passes_skipWhile isIdentifierChar
    have kind := ofText_castType among
    obtain ⟨ch, word, spelled⟩ := List.exists_cons_of_ne_nil nonempty
    rw [spelled] at passes letters among kind
    have letter := letters ch List.mem_cons_self
    have starts : (isIdentifierStart ch || ch == '\\') = true := by
      rw [isIdentifierStart, letter, Bool.true_or, Bool.true_or]
    have read := ofChars_of_name passes starts
      (fun ch member => isNameChar_of_isAlpha (letters ch member))
      fun ch => isNameChar_eq_false_of_skipInline closed
    have reached' : c.skipInline.advanceBy (ch :: word).length =
        c.skipInline.skipWhile isIdentifierChar := passes.2.symm
    rw [kind] at read
    have skipped : skipTrivia c = ⟨.ok (), c.skipInline⟩ := by
      refine skipTrivia_skipInline (passes_cons.mp passes).1
        (isBlank_eq_false_of_stops (by decide) letter) ?_ ?_ <;> rintro rfl <;> cases letter
    have next := nextLexeme_of_skipTrivia skipped read
    rw [reached'] at next
    exact ⟨_, _, skipped, next, by rwa [String.toList_ofList], closed, reached⟩
  · cases found'

/-- What is no cast has no parenthesis where a cast would end. -/
theorem peek?_ne_of_castTail?_eq_none
    (none : castTail? c.rest = none)
    (among : isAmongWords (c.skipInline.textWhile isIdentifierChar) castTypes = true) :
    c.castEnd.peek? ≠ some ')' := by
  intro closed
  obtain ⟨length, -, found⟩ := exists_castTail?_eq c
  rw [none, if_pos ⟨closed, among⟩] at found
  cases found

end EmbeddedMarkup
