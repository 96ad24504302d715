import EmbeddedMarkup.Text.Character
import EmbeddedMarkup.Text.Position

/-!
# Cursors

A cursor is a position in a text together with the characters behind it.  Everything that reads
text looks at those characters and then moves a cursor by a number of them, so positions change
in one place only.

`c ≤ d` says that `d` is reached from `c` by moving on; `c < d` says that at least one
character lies between them.  The second relation is well founded, because the characters ahead
grow fewer, and it is what every recursive reader decreases.
-/

namespace EmbeddedMarkup

/-- A position and the characters behind it. -/
structure Cursor where
  /-- The characters ahead. -/
  rest : List Char
  /-- The place of the first of them. -/
  position : Position
deriving DecidableEq, Repr

namespace Cursor

/-- The cursor in front of a text. -/
def ofText (text : String) : Cursor :=
  ⟨text.toList, Position.origin⟩

/-- How many characters lie ahead. -/
def size (c : Cursor) : Nat :=
  c.rest.length

/-- No character lies ahead. -/
def isAtEnd (c : Cursor) : Bool :=
  c.rest.isEmpty

/-- The next character. -/
def peek? (c : Cursor) : Option Char :=
  c.rest.head?

/-- The next character after `n` others. -/
def peekNth? (c : Cursor) (n : Nat) : Option Char :=
  c.rest[n]?

/-- The characters ahead start with `text`. -/
def startsWith (c : Cursor) (text : String) : Bool :=
  text.toList.isPrefixOf c.rest

/-- Move over one character, if there is one. -/
def advance (c : Cursor) : Cursor :=
  match c.rest with
  | [] => c
  | ch :: rest => ⟨rest, c.position.past ch rest.head?⟩

/-- Move over `n` characters, or over all that there are. -/
def advanceBy (c : Cursor) : Nat → Cursor
  | 0 => c
  | n + 1 => c.advance.advanceBy n

/-- The characters ahead up to the first that fails `p`. -/
def textWhile (c : Cursor) (p : Char → Bool) : List Char :=
  c.rest.takeWhile p

/-- Move over characters up to the first that fails `p`. -/
def skipWhile (c : Cursor) (p : Char → Bool) : Cursor :=
  c.advanceBy (c.textWhile p).length

/-- Move over blank space. -/
def skipBlanks (c : Cursor) : Cursor :=
  c.skipWhile isBlank

/-- Move over `expected` if it is the next character. -/
def eat? (c : Cursor) (expected : Char) : Option Cursor :=
  if c.peek? = some expected then some c.advance else none

/-- Move over `expected` if the characters ahead start with it. -/
def eatText? (c : Cursor) (expected : String) : Option Cursor :=
  if c.startsWith expected then some (c.advanceBy expected.toList.length) else none

/-- The text between two cursors. -/
def sliceTo (start stop : Cursor) : String :=
  String.ofList (start.rest.take (start.size - stop.size))

/-- The span between two cursors. -/
def spanTo (start stop : Cursor) : Span :=
  Span.between start.position stop.position

instance : LE Cursor :=
  ⟨fun c d => ∃ n, d = c.advanceBy n⟩

instance : LT Cursor :=
  ⟨fun c d => c ≤ d ∧ d.size < c.size⟩

/-- Moving over one character drops it from those ahead. -/
@[simp]
theorem rest_advance (c : Cursor) : c.advance.rest = c.rest.drop 1 := by
  rw [advance]
  split <;> simp_all

/-- Moving over `n` characters drops them from those ahead. -/
@[simp]
theorem rest_advanceBy (c : Cursor) (n : Nat) : (c.advanceBy n).rest = c.rest.drop n := by
  induction n generalizing c with
  | zero => rfl
  | succ n ih => rw [advanceBy, ih, rest_advance, List.drop_drop, Nat.add_comm]

/-- Moving by `m` and then by `n` characters is moving by `m + n`. -/
theorem advanceBy_advanceBy (c : Cursor) (m n : Nat) :
    (c.advanceBy m).advanceBy n = c.advanceBy (m + n) := by
  induction m generalizing c with
  | zero => rw [Nat.zero_add, advanceBy]
  | succ m ih => rw [Nat.succ_add, advanceBy, advanceBy, ih]

/-- Moving over `n` characters leaves that many fewer ahead. -/
@[simp]
theorem size_advanceBy (c : Cursor) (n : Nat) : (c.advanceBy n).size = c.size - n := by
  simp [size]

/-- Standing still is moving on. -/
protected theorem le_refl (c : Cursor) : c ≤ c :=
  ⟨0, rfl⟩

/-- Moving on twice is moving on. -/
protected theorem le_trans {c d e : Cursor} (first : c ≤ d) (second : d ≤ e) : c ≤ e := by
  obtain ⟨m, rfl⟩ := first
  obtain ⟨n, rfl⟩ := second
  exact ⟨m + n, advanceBy_advanceBy c m n⟩

/-- Moving on never adds characters. -/
theorem size_le_of_le {c d : Cursor} (reached : c ≤ d) : d.size ≤ c.size := by
  obtain ⟨n, rfl⟩ := reached
  simp

/-- A cursor moved over some characters was moved on. -/
protected theorem le_of_lt {c d : Cursor} (ahead : c < d) : c ≤ d :=
  ahead.1

/-- A cursor moved over some characters has fewer ahead. -/
theorem size_lt_of_lt {c d : Cursor} (ahead : c < d) : d.size < c.size :=
  ahead.2

/-- Moving on and then over some characters is moving over some. -/
protected theorem lt_of_le_of_lt {c d e : Cursor} (first : c ≤ d) (second : d < e) : c < e :=
  ⟨Cursor.le_trans first second.1, Nat.lt_of_lt_of_le second.2 (size_le_of_le first)⟩

/-- Moving over some characters and then on is moving over some. -/
protected theorem lt_of_lt_of_le {c d e : Cursor} (first : c < d) (second : d ≤ e) : c < e :=
  ⟨Cursor.le_trans first.1 second, Nat.lt_of_le_of_lt (size_le_of_le second) first.2⟩

/-- Moving over some characters twice is moving over some. -/
protected theorem lt_trans {c d e : Cursor} (first : c < d) (second : d < e) : c < e :=
  Cursor.lt_of_lt_of_le first second.1

/-- Every number of steps moves a cursor on. -/
theorem le_advanceBy (c : Cursor) (n : Nat) : c ≤ c.advanceBy n :=
  ⟨n, rfl⟩

/-- One step moves a cursor on. -/
theorem le_advance (c : Cursor) : c ≤ c.advance :=
  ⟨1, rfl⟩

/-- A step over a character that is there leaves fewer ahead. -/
theorem lt_advanceBy {c : Cursor} {n : Nat} (moves : 0 < n) (more : c.rest ≠ []) :
    c < c.advanceBy n := by
  refine ⟨le_advanceBy c n, ?_⟩
  have : 0 < c.size := List.length_pos_iff.mpr more
  rw [size_advanceBy]
  omega

/-- A step over the next character moves a cursor over it. -/
theorem lt_advance {c : Cursor} {next : Char} (more : c.peek? = some next) : c < c.advance := by
  refine lt_advanceBy Nat.one_pos fun none_left => ?_
  simp [peek?, none_left] at more

/-- Skipping moves a cursor on. -/
theorem le_skipWhile (c : Cursor) (p : Char → Bool) : c ≤ c.skipWhile p :=
  le_advanceBy c _

/-- Skipping blank space moves a cursor on. -/
theorem le_skipBlanks (c : Cursor) : c ≤ c.skipBlanks :=
  le_skipWhile c _

/-- Eating a character moves a cursor over it. -/
theorem lt_of_eat? {c d : Cursor} {expected : Char} (eaten : c.eat? expected = some d) :
    c < d := by
  rw [eat?] at eaten
  split at eaten
  · rename_i next
    obtain rfl := Option.some.inj eaten
    exact lt_advance next
  · contradiction

/-- Eating a text that is not empty moves a cursor over it. -/
theorem lt_of_eatText?
    {c d : Cursor}
    {expected : String}
    (nonempty : expected.toList ≠ [])
    (eaten : c.eatText? expected = some d) :
    c < d := by
  rw [eatText?] at eaten
  split at eaten
  · rename_i next
    obtain rfl := Option.some.inj eaten
    refine lt_advanceBy (List.length_pos_iff.mpr nonempty) ?_
    intro none_left
    rw [startsWith, none_left] at next
    cases h : expected.toList with
    | nil => exact nonempty h
    | cons ch text => simp [h] at next
  · contradiction

end Cursor
end EmbeddedMarkup
