import EmbeddedMarkup.Proofs.Text.Cursor

/-!
# Exchanged text

Two texts that differ in one stretch are the same in front of it and behind it.  In front of it
cursors stand at the same positions in both.  Behind it positions differ by a fixed number of bytes
and of lines, and columns by a fixed number in the line where the stretch ends.
-/

namespace EmbeddedMarkup

/-! ## Cursors in front of the same characters -/

namespace Cursor

variable {c c' : Cursor} {R : Position → Position → Prop}

/-- The characters ahead are the same, and the positions are related. -/
structure Alike (R : Position → Position → Prop) (c c' : Cursor) : Prop where
  rest : c'.rest = c.rest
  position : R c.position c'.position

/-- Positions that are related stay so behind the same characters. -/
def IsSteady (R : Position → Position → Prop) : Prop :=
  ∀ {place place' : Position} (ch : Char) (following : Option Char),
    R place place' → R (place.past ch following) (place'.past ch following)

namespace Alike

variable (steady : IsSteady R) (alike : c.Alike R c')

include steady alike

theorem advance : c.advance.Alike R c'.advance := by
  obtain ⟨rest, place⟩ := c
  obtain ⟨rest', place'⟩ := c'
  obtain ⟨rfl, related⟩ := alike
  cases rest' with
  | nil => exact ⟨rfl, related⟩
  | cons ch rest => exact ⟨rfl, steady ch rest.head? related⟩

theorem advanceBy (n : Nat) : (c.advanceBy n).Alike R (c'.advanceBy n) := by
  induction n generalizing c c' with
  | zero => exact alike
  | succ n ih => exact ih (alike.advance steady)

theorem skipBlanks : c.skipBlanks.Alike R c'.skipBlanks := by
  have same : c'.textWhile isBlank = c.textWhile isBlank := by
    rw [textWhile, textWhile, alike.rest]
  rw [Cursor.skipBlanks, Cursor.skipBlanks, skipWhile, skipWhile, same]
  exact alike.advanceBy steady _

end Alike

/-! ## In front of the stretch -/

/-- The cursor between two texts. -/
def placeBehind (front later : List Char) : Cursor :=
  (ofText (String.ofList (front ++ later))).advanceBy front.length

theorem placeBehind_eq (front later : List Char) :
    placeBehind front later = advanceBy ⟨front ++ later, Position.origin⟩ front.length := by
  rw [placeBehind, ofText, String.toList_ofList]

theorem rest_placeBehind (front later : List Char) : (placeBehind front later).rest = later :=
  rest_advanceBy_length String.toList_ofList

/-- From in front of a text to behind it. -/
theorem passes_placeBehind (front text later : List Char) :
    (placeBehind front (text ++ later)).Passes text (placeBehind (front ++ text) later) := by
  refine ⟨by rw [rest_placeBehind, rest_placeBehind], ?_⟩
  rw [placeBehind, placeBehind, advanceBy_advanceBy, List.append_assoc, List.length_append]

/-- Two cursors at one position, in front of one text and of different ones behind it. -/
structure Parts (front later later' : List Char) (c c' : Cursor) : Prop where
  rest : c.rest = front ++ later
  rest' : c'.rest = front ++ later'
  position : c'.position = c.position

theorem parts_ofText (front later later' : List Char) :
    Parts front later later' (ofText (String.ofList (front ++ later)))
      (ofText (String.ofList (front ++ later'))) where
  rest := String.toList_ofList
  rest' := String.toList_ofList
  position := rfl

/-- Up to the text in which they differ, both cursors move alike. -/
theorem Parts.advanceBy
    {front later later' : List Char}
    {n : Nat}
    (parts : Parts front later later' c c')
    (opens : later'.head? = later.head?)
    (inside : n ≤ front.length) :
    Parts (front.drop n) later later' (c.advanceBy n) (c'.advanceBy n) := by
  induction n generalizing front c c' with
  | zero => exact parts
  | succ n ih =>
      obtain ⟨ch, front, rfl⟩ := List.exists_cons_of_ne_nil (List.ne_nil_of_length_pos
        (Nat.lt_of_lt_of_le n.succ_pos inside))
      have next : (front ++ later').head? = (front ++ later).head? := by
        rw [List.head?_append, List.head?_append, opens]
      have parts : Parts front later later' c.advance c'.advance := by
        obtain ⟨rest, rest', same⟩ := parts
        rw [List.cons_append] at rest rest'
        refine ⟨by rw [rest_advance, rest]; rfl, by rw [rest_advance, rest']; rfl, ?_⟩
        rw [position_advance rest, position_advance rest', same, next]
      exact ih parts (Nat.le_of_succ_le_succ inside)

end Cursor

/-! ## Behind the stretch -/

namespace Position

variable {first first' place : Position}

/-- The position where the text in front of `first` has been exchanged for that of `first'`. -/
def moved (first first' place : Position) : Position where
  offset := place.offset - first.offset + first'.offset
  line := place.line - first.line + first'.line
  column :=
    if place.line = first.line then place.column - first.column + first'.column else place.column

/-- No part of `place` tells that it lies in front of `first`. -/
structure Precedes (first place : Position) : Prop where
  offset : first.offset ≤ place.offset
  line : first.line ≤ place.line
  column : place.line = first.line → first.column ≤ place.column

theorem precedes_self (first : Position) : first.Precedes first :=
  ⟨Nat.le_refl _, Nat.le_refl _, fun _ => Nat.le_refl _⟩

theorem moved_start (first first' : Position) : moved first first' first = first' := by
  simp [moved]

theorem Precedes.past (precedes : first.Precedes place) (ch : Char) (following : Option Char) :
    first.Precedes (place.past ch following) := by
  obtain ⟨offset, line, column⟩ := precedes
  unfold Position.past
  split
  · constructor <;> dsimp only <;> omega
  · split
    · split <;> constructor <;> dsimp only <;> omega
    · constructor <;> dsimp only <;> omega

/-- Behind the same character positions are moved alike. -/
theorem Precedes.past_moved
    (precedes : first.Precedes place)
    (ch : Char)
    (following : Option Char) :
    (moved first first' place).past ch following =
      moved first first' (place.past ch following) := by
  obtain ⟨offset, line, column⟩ := precedes
  have next : place.line + 1 ≠ first.line := Nat.ne_of_gt (Nat.lt_succ_of_le line)
  unfold Position.past
  split
  · simp only [moved, next, if_false, Position.mk.injEq, and_true]
    omega
  · split
    · split
      · simp only [moved, Position.mk.injEq, and_true]
        omega
      · simp only [moved, next, if_false, Position.mk.injEq, and_true]
        omega
    · simp only [moved, Position.mk.injEq, true_and]
      split <;> omega

end Position

/-- The cursor in front of the same characters, where the text in front of `first` is exchanged. -/
def Cursor.moved (first first' : Position) (c : Cursor) : Cursor :=
  ⟨c.rest, Position.moved first first' c.position⟩

end EmbeddedMarkup
