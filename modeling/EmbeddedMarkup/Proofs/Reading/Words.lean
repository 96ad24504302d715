import EmbeddedMarkup.Proofs.Expression.Spelling
import EmbeddedMarkup.Proofs.Reading.Rules
import EmbeddedMarkup.Proofs.Text.Cursor

/-!
# Words between cursors

A text of words with single spaces between them is read word by word.  A text stands between two
cursors when the first moves over blank space and the text to the second; the words of a text
stand one behind the other, and a word that spells a lexeme makes that lexeme the next one.
-/

namespace EmbeddedMarkup

/-- The text stands between two cursors, behind blank space. -/
def Stands (text : List Char) (start stop : Cursor) : Prop :=
  ∃ blanks first, Blank blanks ∧ start.Passes blanks first ∧ first.Passes text stop

/-- The text starts with no blank space. -/
def Visible (text : List Char) : Prop :=
  ∃ first more, text = first :: more ∧ isBlank first = false

/-- Texts with single spaces between them. -/
def spaced : List (List Char) → List Char
  | [] => []
  | [text] => text
  | text :: texts => text ++ ' ' :: spaced texts

/-- How a symbol is written. -/
def Symbol.text (kind : Symbol) : List Char :=
  kind.spelling.toList

variable {text more word : List Char} {c d start : Cursor} {lexeme : Lexeme}

@[simp] theorem spaced_cons_cons (text more : List Char) (texts : List (List Char)) :
    spaced (text :: more :: texts) = text ++ ' ' :: spaced (more :: texts) := rfl

theorem stands_of_passes (passes : c.Passes text d) : Stands text c d :=
  ⟨[], c, blank_nil, Cursor.passes_nil.mpr rfl, passes⟩

/-- Of spaced texts, each one stands behind the one before. -/
theorem Stands.split
    {texts : List (List Char)}
    (stands : Stands (spaced (text :: more :: texts)) c d) :
    ∃ middle, Stands text c middle ∧ Separated middle.rest ∧
      Stands (spaced (more :: texts)) middle d := by
  obtain ⟨blanks, first, blank, before, passes⟩ := stands
  rw [spaced_cons_cons] at passes
  obtain ⟨middle, inside, passes⟩ := Cursor.passes_append.mp passes
  rw [← List.singleton_append, Cursor.passes_append] at passes
  obtain ⟨next, space, passes⟩ := passes
  have separated : Separated middle.rest := by
    rw [space.1]
    exact separated_cons.mpr (by decide)
  exact ⟨middle, ⟨blanks, first, blank, before, inside⟩, separated,
    [' '], next, blank_space, space, passes⟩

/-- Behind the blank space in front of a text, the text is ahead. -/
theorem Stands.passes_skipBlanks (stands : Stands text c d) (visible : Visible text) :
    c.skipBlanks.Passes text d := by
  obtain ⟨blanks, first, blank, before, passes⟩ := stands
  obtain ⟨ch, more, rfl, visible⟩ := visible
  have next := (Cursor.passes_cons.mp passes).1
  have still : first.skipBlanks = first := by
    apply Cursor.skipBlanks_eq_self
    intro ahead found
    rw [next] at found
    cases found
    exact visible
  rwa [before.skipBlanks_eq blank, still]

theorem Visible.append (visible : Visible text) : Visible (text ++ more) := by
  obtain ⟨first, rest, rfl, notBlank⟩ := visible
  exact ⟨first, rest ++ more, rfl, notBlank⟩

theorem Visible.spaced
    {texts : List (List Char)}
    (visible : Visible text) :
    Visible (spaced (text :: texts)) := by
  cases texts with
  | nil => exact visible
  | cons more texts => exact visible.append

theorem Spells.isVisible (spells : Spells word lexeme) : Visible word := by
  cases word with
  | nil => exact absurd rfl spells.nonempty
  | cons first more => exact ⟨first, more, rfl, spells.visible⟩

/-- Trivia end where no comment starts. -/
theorem skipTrivia_eq_skipBlanks (plain : CommentReading.ofChars c.skipBlanks.rest = .absent) :
    skipTrivia c = ⟨.ok (), c.skipBlanks⟩ := by
  rw [skipTrivia]
  split <;> rename_i found
  · rfl
  · rw [plain] at found
    cases found
  · rw [plain] at found
    cases found

/-- A comment belongs to the trivia. -/
theorem skipTrivia_comment
    {length : Nat}
    (found : CommentReading.ofChars c.skipBlanks.rest = .comment length) :
    skipTrivia c = skipTrivia (c.skipBlanks.advanceBy length) := by
  rw [skipTrivia]
  split <;> rename_i found'
  · rw [found] at found'
    cases found'
  · rw [found] at found'
    cases found'
    rfl
  · rw [found] at found'
    cases found'

/-- Where trivia end, neither blank space nor a comment is ahead. -/
theorem of_skipTrivia (skipped : skipTrivia c = ⟨.ok (), start⟩) :
    start.skipBlanks = start ∧ CommentReading.ofChars start.rest = .absent := by
  fun_induction skipTrivia c with
  | case1 c plain =>
      cases skipped
      exact ⟨c.skipBlanks_skipBlanks, plain⟩
  | case2 c length _ ih => exact ih skipped
  | case3 => cases skipped

/-- A token is read off the characters behind the trivia. -/
theorem readToken_eq_ok_iff {span : Span} :
    readToken c = ⟨.ok ⟨lexeme, span⟩, d⟩ ↔
      ∃ first length, skipTrivia c = ⟨.ok (), first⟩ ∧
        LexemeReading.ofChars first.rest = .found lexeme length ∧
        d = first.advanceBy length ∧ span = first.spanTo d := by
  constructor
  · intro read
    unfold readToken at read
    split at read
    · cases read
    · rename_i first skipped
      simp only [tokenAt, LexicalReading.mk.injEq] at read
      obtain ⟨outcome, rfl⟩ := read
      split at outcome
      · rename_i found
        cases outcome
        exact ⟨first, _, skipped, LexemeReading.mk.injEq .. |>.mpr ⟨found, rfl⟩, rfl, rfl⟩
      · cases outcome
  · rintro ⟨first, length, skipped, read, rfl, rfl⟩
    simp only [readToken, skipped, tokenAt, read, LexemeReading.found]

section Words

variable (spells : Spells word lexeme) (stands : Stands word c d) (separated : Separated d.rest)

include spells stands separated

/-- In front of a word there is only blank space to skip. -/
theorem Spells.skipTrivia : skipTrivia c = ⟨.ok (), c.skipBlanks⟩ := by
  have passes := stands.passes_skipBlanks spells.isVisible
  apply skipTrivia_eq_skipBlanks
  rw [passes.1]
  exact spells.uncommented separated

/-- A word makes its lexeme the next one. -/
theorem Spells.nextLexeme : NextLexeme c lexeme d := by
  have passes := stands.passes_skipBlanks spells.isVisible
  have read : LexemeReading.ofChars c.skipBlanks.rest = .found lexeme word.length := by
    rw [passes.1]
    exact spells.ofChars_append separated
  refine ⟨c.skipBlanks.spanTo d, ?_⟩
  simp only [readToken, spells.skipTrivia stands separated, tokenAt, read, LexemeReading.found]
  rw [← passes.2]

end Words

/-- A lexeme that is next was read off the characters behind the trivia. -/
theorem NextLexeme.read (next : NextLexeme c lexeme d) :
    ∃ start length, EmbeddedMarkup.skipTrivia c = ⟨.ok (), start⟩ ∧
      LexemeReading.ofChars start.rest = .found lexeme length := by
  obtain ⟨span, read⟩ := next
  obtain ⟨start, length, skipped, found, -⟩ := readToken_eq_ok_iff.mp read
  exact ⟨start, length, skipped, found⟩

/-- The name of a variable that is next is an identifier. -/
theorem NextLexeme.isIdentifier
    {name : String}
    (next : NextLexeme c (.variable name) d) :
    IsIdentifier name.toList := by
  obtain ⟨start, length, -, read⟩ := next.read
  exact isIdentifier_of_read read

/-- A word that is next is a word of its own kind. -/
theorem NextLexeme.isWord
    {kind : WordKind}
    {text : String}
    (next : NextLexeme c (.word kind text) d) :
    IsWord text.toList ∧ kind = .ofText text := by
  obtain ⟨start, length, -, read⟩ := next.read
  exact isWord_of_read read

end EmbeddedMarkup
