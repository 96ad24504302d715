import EmbeddedMarkup.Proofs.Text.Slice
import Mathlib.Data.Prod.Lex

/-!
# Runs of cursors

Whatever is done with new cursors in front of a text and with copies of them, in any order, each of
them stands in front of a character of the text or at its end, and its position is the one that is
counted in the text.  A carriage return is told from the two characters of a line break by what
follows it, so the position is counted in the whole text and not in what the cursor has passed.

Cursors of one text are therefore determined by their offsets, and a greater offset never comes with
an earlier line, nor with an earlier column of the same line.
-/

namespace EmbeddedMarkup

/-- What can be done with a cursor. -/
inductive CursorMove where
  | advance
  | eat (expected : Char)
  | eatText (expected : String)
  | skipWhile (p : Char → Bool)
  | skipBlanks

/-- What can be done with cursors, each of which is kept under a number. -/
inductive CursorCall where
  /-- Move one of them. -/
  | move (name : Nat) (move : CursorMove)
  /-- Replace one of them by a copy of another one. -/
  | copy (source target : Nat)

/-- The cursor that a move leaves.  What is not there to be eaten leaves it in place. -/
def Cursor.leftBy (c : Cursor) : CursorMove → Cursor
  | .advance => c.advance
  | .eat expected => (c.eat? expected).getD c
  | .eatText expected => (c.eatText? expected).getD c
  | .skipWhile p => c.skipWhile p
  | .skipBlanks => c.skipBlanks

/-- The cursors that are kept. -/
abbrev Cursors : Type := Nat → Cursor

namespace Cursors

/-- New cursors in front of a text. -/
def ofText (text : String) : Cursors :=
  fun _ => .ofText text

/-- The cursors that a call leaves. -/
def leftBy (cursors : Cursors) : CursorCall → Cursors
  | .move name move => Function.update cursors name ((cursors name).leftBy move)
  | .copy source target => Function.update cursors target (cursors source)

/-- The cursors after a run of calls. -/
def afterCalls (cursors : Cursors) (calls : List CursorCall) : Cursors :=
  calls.foldl leftBy cursors

end Cursors

variable {text : String} {c d : Cursor} {cs : List Char} {m n : Nat}

/-! ## Positions along a text -/

/-- Lines and columns of the boundaries of a text do not decrease. -/
theorem monotone_line_column (cs : List Char) :
    Monotone fun n => toLex ((Position.ofIndex cs n).line, (Position.ofIndex cs n).column) := by
  refine monotone_nat_of_le_succ fun n => Prod.Lex.toLex_le_toLex.mpr ?_
  dsimp only [Position.ofIndex, lineBreaks]
  by_cases ends : EndsLine cs n
  · left
    rw [Nat.count_succ, if_pos ends]
    omega
  · right
    rw [Nat.count_succ, if_neg ends, lineStart, if_neg ends]
    exact ⟨rfl, Nat.succ_le_succ (Nat.count_monotone _ n.le_succ)⟩

theorem byteOffset_le_succ (cs : List Char) (n : Nat) :
    byteOffset cs n ≤ byteOffset cs (n + 1) := by
  cases found : cs[n]? with
  | some ch =>
      rw [byteOffset_succ found]
      exact Nat.le_add_right _ _
  | none =>
      have ended : cs.length ≤ n := List.getElem?_eq_none_iff.mp found
      rw [byteOffset, byteOffset, List.take_of_length_le ended,
        List.take_of_length_le (Nat.le_succ_of_le ended)]

/-- Each character of a text takes some bytes. -/
theorem byteOffset_lt (before : m < n) (inside : n ≤ cs.length) :
    byteOffset cs m < byteOffset cs n := by
  have found : cs[m]? = some cs[m] := List.getElem?_eq_getElem (Nat.lt_of_lt_of_le before inside)
  calc byteOffset cs m < byteOffset cs (m + 1) := by
        rw [byteOffset_succ found]
        exact Nat.lt_add_of_pos_right cs[m].utf8Size_pos
    _ ≤ byteOffset cs n := monotone_nat_of_le_succ (byteOffset_le_succ cs) before

/-- The bytes of the first characters of a text end between two characters. -/
theorem isValid_byteOffset (text : String) (n : Nat) :
    String.Pos.Raw.IsValid text ⟨byteOffset text.toList n⟩ := by
  refine String.Pos.Raw.isValid_iff_exists_append.mpr
    ⟨String.ofList (text.toList.take n), String.ofList (text.toList.drop n), ?_, rfl⟩
  rw [← String.ofList_append, List.take_append_drop, String.ofList_toList]

/-! ## One cursor -/

/-- The cursor stands behind the first `n` characters of a text, at the position counted there. -/
structure Cursor.StandsBehind (c : Cursor) (text : String) (n : Nat) : Prop where
  inside : n ≤ text.length
  /-- The other characters are ahead. -/
  rest : c.rest = text.toList.drop n
  /-- The offset is the number of bytes of the characters in front. -/
  offset : c.position.offset = byteOffset text.toList n
  /-- It leads to a boundary between two characters of the text, or to its end. -/
  boundary : String.Pos.Raw.IsValid text ⟨c.position.offset⟩
  /-- The line is one more than the number of line breaks that are completed in front. -/
  line : c.position.line = lineBreaks text.toList n + 1
  /--
  The column is one more than the number of characters behind the last of them, without a carriage
  return that a line feed follows.
  -/
  column : c.position.column =
    Nat.count (fun i => lineStart text.toList n ≤ i ∧ ¬OpensPair text.toList i) n + 1

namespace Cursor

theorem StandsBehind.position (stands : c.StandsBehind text n) :
    c.position = Position.ofIndex text.toList n := by
  rw [Position.ofIndex, ← stands.offset, ← stands.line, ← stands.column]

/-- What is reached from the front of a text stands in it. -/
theorem exists_standsBehind_of_le (place : ofText text ≤ c) : ∃ n, c.StandsBehind text n := by
  obtain ⟨n, inside, rfl, -⟩ := exists_index_of_le place
  have position := @position_advanceBy_ofText n text inside
  refine ⟨n, inside, rest_advanceBy _ n, ?_, ?_, ?_, ?_⟩
  all_goals rw [position]
  · rfl
  · exact isValid_byteOffset text n
  · rfl
  · rfl

/-- No move leads back. -/
theorem le_leftBy (c : Cursor) (move : CursorMove) : c ≤ c.leftBy move := by
  cases move with
  | advance => exact c.le_advance
  | eat expected =>
      rw [leftBy]
      cases eaten : c.eat? expected with
      | none => exact Cursor.le_refl c
      | some d => exact Cursor.le_of_lt (lt_of_eat? eaten)
  | eatText expected =>
      rw [leftBy]
      cases eaten : c.eatText? expected with
      | none => exact Cursor.le_refl c
      | some d =>
          obtain ⟨-, rfl⟩ := eatText?_eq_some_iff.mp eaten
          exact c.le_advanceBy _
  | skipWhile p => exact c.le_skipWhile p
  | skipBlanks => exact c.le_skipBlanks

/-- Of two cursors of a text, the one with the smaller offset has fewer characters in front. -/
theorem StandsBehind.le_of_offset_le
    (first : c.StandsBehind text m)
    (second : d.StandsBehind text n)
    (order : c.position.offset ≤ d.position.offset) :
    m ≤ n := by
  by_contra behind
  have inside : m ≤ text.toList.length := String.length_toList ▸ first.inside
  have more := byteOffset_lt (Nat.lt_of_not_le behind) inside
  rw [← first.offset, ← second.offset] at more
  omega

/-- Two cursors of a text with one offset are the same. -/
theorem StandsBehind.eq_of_offset_eq
    (first : c.StandsBehind text m)
    (second : d.StandsBehind text n)
    (same : c.position.offset = d.position.offset) :
    c = d := by
  obtain rfl := Nat.le_antisymm (first.le_of_offset_le second (Nat.le_of_eq same))
    (second.le_of_offset_le first (Nat.le_of_eq same.symm))
  have position : c.position = d.position := first.position.trans second.position.symm
  have rest : c.rest = d.rest := first.rest.trans second.rest.symm
  obtain ⟨_, _⟩ := c
  obtain ⟨_, _⟩ := d
  exact (mk.injEq ..).mpr ⟨rest, position⟩

/-- A greater offset comes with no earlier line, nor with an earlier column of the same line. -/
theorem StandsBehind.line_column_le
    (first : c.StandsBehind text m)
    (second : d.StandsBehind text n)
    (order : c.position.offset ≤ d.position.offset) :
    toLex (c.position.line, c.position.column) ≤ toLex (d.position.line, d.position.column) := by
  rw [first.position, second.position]
  exact monotone_line_column text.toList (first.le_of_offset_le second order)

end Cursor

/-! ## Runs of calls -/

namespace Cursors

/-- No call leads a cursor out of its text. -/
theorem ofText_le_leftBy
    {cursors : Cursors}
    (places : ∀ name, .ofText text ≤ cursors name)
    (call : CursorCall)
    (name : Nat) :
    .ofText text ≤ cursors.leftBy call name := by
  cases call with
  | move moved move =>
      rw [leftBy, Function.update_apply]
      split
      · exact Cursor.le_trans (places moved) (Cursor.le_leftBy _ move)
      · exact places name
  | copy source target =>
      rw [leftBy, Function.update_apply]
      split
      · exact places source
      · exact places name

/-- No run of calls leads a cursor out of its text. -/
theorem ofText_le_afterCalls
    {cursors : Cursors}
    (places : ∀ name, .ofText text ≤ cursors name)
    (calls : List CursorCall) :
    ∀ name, .ofText text ≤ cursors.afterCalls calls name := by
  induction calls generalizing cursors with
  | nil => exact places
  | cons call calls ih => exact ih (ofText_le_leftBy places call)

/-- After a run of calls on new cursors each of them stands in the text. -/
theorem exists_standsBehind_afterCalls (text : String) (calls : List CursorCall) (name : Nat) :
    ∃ n, ((ofText text).afterCalls calls name).StandsBehind text n :=
  Cursor.exists_standsBehind_of_le
    (ofText_le_afterCalls (fun _ => Cursor.le_refl _) calls name)

/--
After any runs of calls on new cursors in front of a text, each cursor stands behind some of its
characters with the position that is counted in the text; two cursors with one offset are the same,
and lines and columns do not decrease as the offset grows.
-/
theorem standsBehind_and_eq_of_offset_eq
    (text : String) (calls calls' : List CursorCall) (name name' : Nat) :
    let c := (ofText text).afterCalls calls name
    let d := (ofText text).afterCalls calls' name'
    (∃ n, c.StandsBehind text n) ∧
      (c.position.offset = d.position.offset → c = d) ∧
      (c.position.offset ≤ d.position.offset →
        toLex (c.position.line, c.position.column) ≤
          toLex (d.position.line, d.position.column)) := by
  intro c d
  obtain ⟨m, first⟩ := exists_standsBehind_afterCalls text calls name
  obtain ⟨n, second⟩ := exists_standsBehind_afterCalls text calls' name'
  exact ⟨⟨m, first⟩, first.eq_of_offset_eq second, first.line_column_le second⟩

/-- A copy that is moved step by step comes to where another cursor is moved at once. -/
theorem standsBehind_and_eq_of_offset_eq_pair :
    (ofText "é\r\nb").afterCalls
        [.move 0 .advance, .copy 0 1, .move 1 (.eatText "\r\n"), .move 1 (.eat 'a')] 1 =
      (ofText "é\r\nb").afterCalls [.move 2 (.skipWhile (· != 'b'))] 2 :=
  (standsBehind_and_eq_of_offset_eq "é\r\nb" _ _ 1 2).2.1 (by decide)

end Cursors
end EmbeddedMarkup
