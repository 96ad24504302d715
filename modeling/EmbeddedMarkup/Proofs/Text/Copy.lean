import EmbeddedMarkup.Proofs.Text.Ends
import EmbeddedMarkup.Proofs.Text.Normalization

/-!
# The same text somewhere else

The text between two cursors may be ahead of a third cursor too, in the same source or in another
one.  Then every cursor inside the text has a copy there, and what a cursor moves over inside the
text its copy moves over as well.

Positions of copies differ by a fixed number of bytes and of lines.  Columns differ by a fixed
number in the first line only: behind a line break a column counts from there.
-/

namespace EmbeddedMarkup

/-! ## Positions -/

/-- The span where the text in front of `first` has been exchanged for that in front of `first'`. -/
def Span.moved (first first' : Position) (span : Span) : Span where
  start := span.start - first.offset + first'.offset
  stop := span.stop - first.offset + first'.offset
  line := span.line - first.line + first'.line
  column :=
    if span.line = first.line then span.column - first.column + first'.column else span.column
  endLine := span.endLine - first.line + first'.line

/-- The position `place` lies behind `first` as `place'` lies behind `first'`. -/
structure Position.Moved (first first' place place' : Position) : Prop where
  offset_le : first.offset ≤ place.offset
  offset : place'.offset + first.offset = place.offset + first'.offset
  line_le : first.line ≤ place.line
  line : place'.line + first.line = place.line + first'.line
  column :
    place.line = first.line ∧ first.column ≤ place.column ∧
        place'.column + first.column = place.column + first'.column ∨
      first.line < place.line ∧ place'.column = place.column
  /-- In the first line columns grow. -/
  behind : place.line = first.line → first.offset < place.offset → first.column < place.column

namespace Position

variable {first first' place place' other other' : Position} {ch : Char} {following : Option Char}

theorem moved_self (first first' : Position) : Moved first first' first first' where
  offset_le := Nat.le_refl _
  offset := Nat.add_comm _ _
  line_le := Nat.le_refl _
  line := Nat.add_comm _ _
  column := .inl ⟨rfl, Nat.le_refl _, Nat.add_comm _ _⟩
  behind := by omega

/-- What follows a character that is not blank does not matter for the position behind it. -/
theorem past_eq_of_visible {following' : Option Char} (visible : isBlank ch = false) :
    place.past ch following = place.past ch following' := by
  have carriage : ch ≠ '\r' := by
    rintro rfl
    cases visible
  simp only [Position.past, carriage, if_false]

/-- Behind the same character positions are moved alike, if the first one ends no line. -/
theorem Moved.past
    (moved : Moved first first' place place')
    (inside : first.offset < place.offset ∨ isBlank ch = false) :
    Moved first first' (place.past ch following) (place'.past ch following) := by
  obtain ⟨offset_le, offset, line_le, line, column, behind⟩ := moved
  unfold Position.past
  split
  · constructor <;> dsimp only <;> omega
  · split
    · rename_i carriage
      subst carriage
      have inside : first.offset < place.offset := by
        rcases inside with inside | visible
        · exact inside
        · cases visible
      split <;> constructor <;> dsimp only <;> omega
    · constructor <;> dsimp only <;> omega

/-- A span between positions is moved with them. -/
theorem Moved.between
    (moved : Moved first first' place place')
    (moved' : Moved first first' other other')
    (proper : 0 < first.column)
    (proper' : 0 < first'.column) :
    (Span.between place other).moved first first' = Span.between place' other' := by
  obtain ⟨offset_le, offset, line_le, line, column, -⟩ := moved
  obtain ⟨offset_le', offset', line_le', line', column', behind'⟩ := moved'
  have ends : place.offset < other.offset ∧ other.column = 1 ↔
      place'.offset < other'.offset ∧ other'.column = 1 := by
    omega
  have later : place.offset < other.offset ∧ other.column = 1 → first.line < other.line := by
    omega
  simp only [Span.between, Span.moved, ← ends, Span.mk.injEq]
  have column_eq : (if place.line = first.line then place.column - first.column + first'.column
      else place.column) = place'.column := by
    split <;> omega
  have endLine_eq : (if place.offset < other.offset ∧ other.column = 1
      then max (other.line - 1) place.line else other.line) - first.line + first'.line =
        if place.offset < other.offset ∧ other.column = 1
          then max (other'.line - 1) place'.line else other'.line := by
    split
    · rename_i ended
      have below := later ended
      omega
    · omega
  exact ⟨by omega, by omega, by omega, column_eq, endLine_eq⟩

end Position

/-! ## Cursors -/

namespace Cursor

variable {start stop start' c d e : Cursor} {text : List Char} {ch : Char} {p : Char → Bool}

/-- A text is passed from one cursor to another behind it. -/
theorem passes_textTo (reached : c ≤ d) : c.Passes (c.textTo d) d :=
  ⟨(textTo_append_rest reached).symm,
    eq_advanceBy_of_rest reached (textTo_append_rest reached).symm⟩

theorem textTo_append_textTo (first : c ≤ d) (second : d ≤ e) :
    c.textTo d ++ d.textTo e = c.textTo e := by
  symm
  apply textTo_eq_of_rest
  rw [List.append_assoc, textTo_append_rest second, textTo_append_rest first]

/-- Columns count from one. -/
theorem column_pos_of_le (proper : 0 < c.position.column) (reached : c ≤ d) :
    0 < d.position.column := by
  obtain ⟨n, rfl⟩ := reached
  induction n generalizing c with
  | zero => exact proper
  | succ n ih =>
      rw [advanceBy]
      apply ih
      unfold advance
      split
      · exact proper
      · unfold Position.past
        dsimp only
        split
        · exact Nat.one_pos
        · split
          · split
            · exact proper
            · exact Nat.one_pos
          · exact Nat.succ_pos _

theorem column_pos_ofText {source : String} (place : .ofText source ≤ c) : 0 < c.position.column :=
  column_pos_of_le Nat.one_pos place

/-- The cursor that lies behind `start'` as `c` lies behind `start`. -/
def copy (start start' c : Cursor) : Cursor :=
  start'.advanceBy (start.size - c.size)

/-- How spans change where a text from `start` on stands at `start'`. -/
def respan (start start' : Cursor) : Span → Span :=
  Span.moved start.position start'.position

/--
The text between two cursors, which neither starts nor ends with blank space, is ahead of a third
one too.
-/
structure Copied (start stop start' : Cursor) : Prop where
  le : start ≤ stop
  ahead : start.textTo stop <+: start'.rest
  opens : ∃ ch, start.peek? = some ch ∧ isBlank ch = false
  closes : start.StopsVisibly stop
  column_pos : 0 < start.position.column
  column_pos' : 0 < start'.position.column

@[simp] theorem copy_self (start start' : Cursor) : start.copy start' start = start' := by
  rw [copy, Nat.sub_self, advanceBy_zero]

/-- Copies move like what they copy. -/
theorem copy_advanceBy {n : Nat} (inside : start ≤ c) (fits : n ≤ c.size) :
    start.copy start' (c.advanceBy n) = (start.copy start' c).advanceBy n := by
  have whole := size_le_of_le inside
  rw [copy, copy, advanceBy_advanceBy, size_advanceBy]
  congr 1
  omega

/-- Between a cursor and one further on there are characters. -/
theorem exists_cons_of_textTo (ahead : c < d) : ∃ ch more, c.textTo d = ch :: more := by
  have rest := textTo_append_rest (Cursor.le_of_lt ahead)
  cases text : c.textTo d with
  | cons ch more => exact ⟨ch, more, rfl⟩
  | nil =>
      have fewer := size_lt_of_lt ahead
      rw [text, List.nil_append] at rest
      rw [size, size, rest] at fewer
      exact absurd fewer (Nat.lt_irrefl _)

namespace Copied

/-- A step inside the text is copied. -/
theorem advance (inside : start ≤ c) (within : c < stop) :
    (start.copy start' c).advance = start.copy start' c.advance :=
  (copy_advanceBy inside (size_pos_of_lt within)).symm

variable (copied : Copied start stop start')

include copied

/-- Ahead of a copy lies what is ahead of the cursor in the text, and then something else. -/
theorem rest_copy (inside : start ≤ c) (within : c ≤ stop) :
    (start.copy start' c).rest = c.textTo stop ++ (start.copy start' stop).rest := by
  obtain ⟨more, ahead⟩ := copied.ahead
  have rest_eq {d : Cursor} (inside : start ≤ d) (within : d ≤ stop) :
      (start.copy start' d).rest = d.textTo stop ++ more := by
    rw [← textTo_append_textTo inside within, List.append_assoc] at ahead
    have length : start.size - d.size = (start.textTo d).length := by
      rw [size, ← textTo_append_rest inside, List.length_append]
      exact Nat.add_sub_cancel _ _
    rw [copy, length, rest_advanceBy_length ahead.symm]
  rw [rest_eq inside within, rest_eq copied.le stop.le_refl, textTo_self, List.nil_append]

/-- What a cursor moves over in the text, its copy moves over as well. -/
theorem passes (inside : start ≤ c) (within : d ≤ stop) (passes : c.Passes text d) :
    (start.copy start' c).Passes text (start.copy start' d) := by
  obtain ⟨ahead, rfl⟩ := passes
  have fits : text.length ≤ c.size := by
    rw [size, ahead, List.length_append]
    exact Nat.le_add_right _ _
  have moved := c.le_advanceBy text.length
  refine ⟨?_, copy_advanceBy inside fits⟩
  rw [copied.rest_copy inside (Cursor.le_trans moved within),
    copied.rest_copy (Cursor.le_trans inside moved) within, ← List.append_assoc,
    ← textTo_append_textTo moved within, textTo_eq_of_rest ahead]

/-- Copies are in the same order. -/
theorem lt (inside : start ≤ c) (passed : c < d) (within : d ≤ stop) :
    start.copy start' c < start.copy start' d := by
  obtain ⟨ch, text, spelled⟩ := exists_cons_of_textTo passed
  have passes := copied.passes inside within (passes_textTo (Cursor.le_of_lt passed))
  exact passes.lt (by simp [spelled])

/-- Inside the text a cursor and its copy see the same character. -/
theorem peek? (inside : start ≤ c) (within : c < stop) :
    (start.copy start' c).peek? = c.peek? := by
  have below := Cursor.le_of_lt within
  obtain ⟨ch, more, ahead⟩ := exists_cons_of_textTo within
  have rest := textTo_append_rest below
  rw [Cursor.peek?, Cursor.peek?, copied.rest_copy inside below, ← rest, ahead]
  rfl

theorem eat? (inside : start ≤ c) (within : d ≤ stop) (eaten : c.eat? ch = some d) :
    (start.copy start' c).eat? ch = some (start.copy start' d) := by
  have before := Cursor.lt_of_lt_of_le (lt_of_eat? eaten) within
  obtain ⟨next, rfl⟩ := eat?_eq_some_iff.mp eaten
  rw [eat?_eq_some_iff, copied.peek? inside before, Copied.advance inside before]
  exact ⟨next, rfl⟩

theorem eat?_eq_none (inside : start ≤ c) (within : c < stop) (kept : c.eat? ch = none) :
    (start.copy start' c).eat? ch = none := by
  rw [eat?_eq_none_iff, copied.peek? inside within]
  exact eat?_eq_none_iff.mp kept

theorem eatText?
    {expected : String}
    (inside : start ≤ c)
    (within : d ≤ stop)
    (eaten : c.eatText? expected = some d) :
    (start.copy start' c).eatText? expected = some (start.copy start' d) := by
  obtain ⟨⟨more, ahead⟩, rfl⟩ := eatText?_eq_some_iff.mp eaten
  exact (copied.passes inside within (passes_advanceBy ahead.symm)).eatText?

/-- A run of characters that ends inside the text is the same run for the copy. -/
theorem run
    (inside : start ≤ c)
    (within : c.skipWhile p < stop) :
    (start.copy start' c).textWhile p = c.textWhile p ∧
      (start.copy start' c).skipWhile p = start.copy start' (c.skipWhile p) := by
  have passes := copied.passes inside (Cursor.le_of_lt within) (passes_skipWhile c p)
  have tested : ∀ ch ∈ c.textWhile p, p ch = true :=
    List.all_eq_true.mp List.all_takeWhile
  have ends : ∀ ch, (start.copy start' (c.skipWhile p)).peek? = some ch → p ch = false := by
    intro ch next
    rw [copied.peek? (Cursor.le_trans inside (c.le_skipWhile p)) within, Cursor.peek?,
      rest_skipWhile] at next
    have fails := List.head?_dropWhile_not p c.rest
    simpa [next] using fails
  exact ⟨passes.textWhile tested ends, passes.skipWhile tested ends⟩

theorem skipBlanks (inside : start ≤ c) (within : c.skipBlanks < stop) :
    (start.copy start' c).skipBlanks = start.copy start' c.skipBlanks :=
  (copied.run inside within).2

/-- One step inside the text moves on the positions of a cursor and its copy alike.  Behind the last
character something else may follow in the other place, but only a carriage return minds. -/
theorem position_advance
    (inside : start ≤ c)
    (within : c < stop)
    (moved : Position.Moved start.position start'.position c.position
      (start.copy start' c).position) :
    Position.Moved start.position start'.position c.advance.position
      (start.copy start' c.advance).position := by
  obtain ⟨ch, text, spelled⟩ := exists_cons_of_textTo within
  have ahead := (passes_textTo (Cursor.le_of_lt within)).1
  have ahead' := copied.rest_copy inside (Cursor.le_of_lt within)
  rw [spelled, List.cons_append] at ahead ahead'
  rw [← Copied.advance inside within, Cursor.position_advance ahead, Cursor.position_advance ahead']
  have first : start.position.offset < c.position.offset ∨ isBlank ch = false := by
    by_cases passed : start < c
    · exact .inl (offset_lt_of_lt passed)
    · right
      have same : c = start := by
        have sizes := size_le_of_le inside
        have unmoved : ¬c.size < start.size := fun fewer => passed ⟨inside, fewer⟩
        rw [eq_advanceBy_size inside, show start.size - c.size = 0 by omega, advanceBy_zero]
      obtain ⟨opening, opens, visible⟩ := copied.opens
      obtain ⟨more, opens⟩ := peek?_eq_some_iff.mp opens
      rw [same, opens] at ahead
      rw [← (List.cons.inj ahead).1, visible]
  cases text with
  | cons next text => exact moved.past first
  | nil =>
      have last := passes_textTo (Cursor.le_of_lt within)
      rw [spelled] at last
      rw [Position.past_eq_of_visible (copied.closes.visible inside last)]
      exact moved.past first

/-- Inside the text the position of a copy is moved as the whole text is. -/
theorem position (inside : start ≤ c) (within : c ≤ stop) :
    Position.Moved start.position start'.position c.position (start.copy start' c).position := by
  have moves : ∀ n, n ≤ start.size → start.advanceBy n ≤ stop →
      Position.Moved start.position start'.position (start.advanceBy n).position
        (start.copy start' (start.advanceBy n)).position := by
    intro n fits within
    induction n with
    | zero =>
        rw [advanceBy_zero, copy_self]
        exact Position.moved_self _ _
    | succ n ih =>
        have step : start.advanceBy (n + 1) = (start.advanceBy n).advance := by
          rw [advance_eq_advanceBy, advanceBy_advanceBy]
        have passed : start.advanceBy n < start.advanceBy (n + 1) := by
          refine ⟨step ▸ (start.advanceBy n).le_advance, ?_⟩
          rw [size_advanceBy, size_advanceBy]
          omega
        have before := Cursor.lt_of_lt_of_le passed within
        rw [step]
        exact copied.position_advance (start.le_advanceBy n) before
          (ih (Nat.le_of_succ_le fits) (Cursor.le_of_lt before))
  have reached := eq_advanceBy_size inside
  rw [reached] at within ⊢
  exact moves _ (Nat.sub_le _ _) within

/-- Spans of the text are moved as the text is. -/
theorem spanTo (inside : start ≤ c) (order : c ≤ d) (within : d ≤ stop) :
    start.respan start' (c.spanTo d) =
      (start.copy start' c).spanTo (start.copy start' d) :=
  (copied.position inside (Cursor.le_trans order within)).between
    (copied.position (Cursor.le_trans inside order) within) copied.column_pos copied.column_pos'

end Copied

end Cursor
end EmbeddedMarkup
