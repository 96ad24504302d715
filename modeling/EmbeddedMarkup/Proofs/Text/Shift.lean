import EmbeddedMarkup.Proofs.Reading.Words

/-!
# Text behind other text

Where whole lines are put in front of a text, every position in it moves by the same number of
bytes and lines, and its column stays.  What a cursor does depends on the characters ahead alone,
so all its moves commute with such a shift, and so does the reading of tokens.
-/

namespace EmbeddedMarkup

/-- The bytes and the lines that are put in front of a text. -/
structure Shift where
  bytes : Nat
  lines : Nat
deriving DecidableEq, Repr

namespace Shift

/-- Nothing is put in front. -/
def zero : Shift :=
  ⟨0, 0⟩

variable (shift : Shift)

/-- Where a position is behind what was put in front. -/
def position (p : Position) : Position :=
  ⟨p.offset + shift.bytes, p.line + shift.lines, p.column⟩

/-- Where a span is behind what was put in front. -/
def span (span : Span) : Span where
  start := span.start + shift.bytes
  stop := span.stop + shift.bytes
  line := span.line + shift.lines
  column := span.column
  endLine := span.endLine + shift.lines

/-- The cursor in front of the same characters. -/
def cursor (c : Cursor) : Cursor :=
  ⟨c.rest, shift.position c.position⟩

/-- The same cause of failure. -/
def fault {ρ : Type} (fault : Located ρ) : Located ρ :=
  ⟨fault.cause, shift.position fault.position⟩

/-- The same lexeme. -/
def token (token : Token) : Token :=
  ⟨token.lexeme, shift.span token.span⟩

/-- The same outcome of a reading, whose value changes by `f`. -/
def reading {α : Type} (f : α → α) (reading : LexicalReading α) : LexicalReading α where
  outcome :=
    match reading.outcome with
    | .ok value => .ok (f value)
    | .error fault => .error ⟨fault.cause, shift.span fault.span⟩
  stop := shift.cursor reading.stop

@[simp] theorem rest_cursor (c : Cursor) : (shift.cursor c).rest = c.rest := rfl

@[simp] theorem size_cursor (c : Cursor) : (shift.cursor c).size = c.size := rfl

@[simp] theorem position_cursor (c : Cursor) :
    (shift.cursor c).position = shift.position c.position := rfl

@[simp] theorem peek?_cursor (c : Cursor) : (shift.cursor c).peek? = c.peek? := rfl

@[simp] theorem isAtEnd_cursor (c : Cursor) : (shift.cursor c).isAtEnd = c.isAtEnd := rfl

@[simp] theorem startsWith_cursor (c : Cursor) (text : String) :
    (shift.cursor c).startsWith text = c.startsWith text := rfl

@[simp] theorem textWhile_cursor (c : Cursor) (p : Char → Bool) :
    (shift.cursor c).textWhile p = c.textWhile p := rfl

/-- Behind the same character the shift is the same. -/
theorem past_position (p : Position) (ch : Char) (following : Option Char) :
    (shift.position p).past ch following = shift.position (p.past ch following) := by
  unfold Position.past
  split
  · simp only [position, Position.mk.injEq, and_true]
    omega
  · split
    · split
      · simp only [position, Position.mk.injEq, and_true]
        omega
      · simp only [position, Position.mk.injEq, and_true]
        omega
    · simp only [position, Position.mk.injEq, and_true]
      omega

/-- A span between positions is shifted with them. -/
theorem between_position (p q : Position) :
    Span.between (shift.position p) (shift.position q) = shift.span (Span.between p q) := by
  simp only [Span.between, position, span, Nat.add_lt_add_iff_right, Span.mk.injEq, true_and]
  split <;> omega

@[simp] theorem advance_cursor (c : Cursor) :
    (shift.cursor c).advance = shift.cursor c.advance := by
  obtain ⟨rest, place⟩ := c
  cases rest with
  | nil => rfl
  | cons ch rest =>
      simp only [Cursor.advance, cursor, past_position]

@[simp] theorem advanceBy_cursor (c : Cursor) (n : Nat) :
    (shift.cursor c).advanceBy n = shift.cursor (c.advanceBy n) := by
  induction n generalizing c with
  | zero => rfl
  | succ n ih => rw [Cursor.advanceBy, Cursor.advanceBy, advance_cursor, ih]

@[simp] theorem skipWhile_cursor (c : Cursor) (p : Char → Bool) :
    (shift.cursor c).skipWhile p = shift.cursor (c.skipWhile p) := by
  rw [Cursor.skipWhile, textWhile_cursor, advanceBy_cursor, Cursor.skipWhile]

@[simp] theorem skipBlanks_cursor (c : Cursor) :
    (shift.cursor c).skipBlanks = shift.cursor c.skipBlanks :=
  shift.skipWhile_cursor c isBlank

@[simp] theorem eat?_cursor (c : Cursor) (ch : Char) :
    (shift.cursor c).eat? ch = (c.eat? ch).map shift.cursor := by
  rw [Cursor.eat?, Cursor.eat?, peek?_cursor]
  split <;> simp

@[simp] theorem eatText?_cursor (c : Cursor) (text : String) :
    (shift.cursor c).eatText? text = (c.eatText? text).map shift.cursor := by
  rw [Cursor.eatText?, Cursor.eatText?, startsWith_cursor]
  split <;> simp

@[simp] theorem spanTo_cursor (c d : Cursor) :
    (shift.cursor c).spanTo (shift.cursor d) = shift.span (c.spanTo d) :=
  shift.between_position c.position d.position

/-- Skipping trivia looks at the characters ahead only. -/
theorem skipTrivia_cursor (c : Cursor) :
    skipTrivia (shift.cursor c) = shift.reading id (skipTrivia c) := by
  fun_induction skipTrivia c with
  | case1 c found =>
      rw [skipTrivia_eq_skipBlanks (by rw [skipBlanks_cursor, rest_cursor, found]),
        skipBlanks_cursor]
      rfl
  | case2 c length found ih =>
      rw [skipTrivia_comment (by rw [skipBlanks_cursor, rest_cursor, found]), skipBlanks_cursor,
        advanceBy_cursor]
      exact ih
  | case3 c found stop =>
      rw [skipTrivia]
      split <;> rename_i found' <;> rw [skipBlanks_cursor, rest_cursor, found] at found'
      · cases found'
      · cases found'
      · simp [reading, stop]

/-- The token at a cursor depends on the characters ahead only. -/
theorem tokenAt_cursor (c : Cursor) :
    tokenAt (shift.cursor c) = shift.reading shift.token (tokenAt c) := by
  unfold tokenAt reading
  simp only [rest_cursor, advanceBy_cursor, spanTo_cursor]
  cases (LexemeReading.ofChars c.rest).outcome <;> rfl

/-- The next token depends on the characters ahead only. -/
theorem readToken_cursor (c : Cursor) :
    readToken (shift.cursor c) = shift.reading shift.token (readToken c) := by
  unfold readToken
  rw [skipTrivia_cursor]
  obtain ⟨outcome, stop⟩ := skipTrivia c
  cases outcome with
  | error fault => rfl
  | ok _ => exact shift.tokenAt_cursor stop

end Shift
end EmbeddedMarkup
