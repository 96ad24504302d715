import EmbeddedMarkup.Expression.Source
import EmbeddedMarkup.Proofs.Reading.Unfolding
import EmbeddedMarkup.Proofs.Text.Slice

/-!
# Reading ends and moves on

The readers can be unfolded into their bodies as often as one likes.  After a number of steps the
calls that are left go to any readers whatever, say to some that give up.  What those give does not
matter once there are seven steps for each character ahead and seven more: the calls that are left
are not made.  So no chain of calls is longer than that, and the equations that the bodies make have
one solution only.

A reading that succeeds has taken at least one character, and none behind the end of its text.
-/

namespace EmbeddedMarkup

namespace HostReaders

/-- The readers, unfolded in `steps` steps, with the calls that are left going to `deeper`. -/
def unfolded (deeper : HostReaders) : Nat → HostReaders
  | 0 => deeper
  | steps + 1 => (deeper.unfolded steps).unfold

/-- With each step the calls of one more rank are those of the readers as they are. -/
theorem unfolded_agreeBelow (deeper : HostReaders) (steps : Nat) :
    (deeper.unfolded steps).AgreeBelow steps actual := by
  induction steps with
  | zero => exact .zero _ _
  | succ steps agree =>
      rw [← unfold_actual]
      exact agree.unfold

theorem unfolded_of_unfold_eq
    {readers : HostReaders}
    (solves : readers.unfold = readers)
    (steps : Nat) :
    readers.unfolded steps = readers := by
  induction steps with
  | zero => rfl
  | succ steps unfolds => rw [unfolded, unfolds, solves]

/-- The equations that the bodies make have one solution. -/
theorem unfold_eq_iff {readers : HostReaders} : readers.unfold = readers ↔ readers = actual := by
  constructor
  · intro solves
    refine eq_of_agreeBelow fun bound => ?_
    rw [← unfolded_of_unfold_eq solves bound]
    exact readers.unfolded_agreeBelow bound
  · rintro rfl
    exact unfold_actual

end HostReaders

/-- A call on a text has a rank below the number of steps that the text allows. -/
theorem Cursor.rank_lt_of_place
    {text : String}
    {start : Cursor}
    {place : Nat}
    (reached : .ofText text ≤ start)
    (small : place < 7) :
    start.rank place < 7 * (text.length + 1) := by
  have fewer : start.size ≤ text.length := size_le_of_le reached
  unfold rank
  omega

/-- One cursor lies behind another one, and not behind the end of the text. -/
structure Cursor.AdvancesIn (text : String) (start stop : Cursor) : Prop where
  moved : start.position.offset < stop.position.offset
  within : stop.position.offset ≤ text.utf8ByteSize

theorem Cursor.advancesIn_of_lt
    {text : String}
    {start stop : Cursor}
    (reached : .ofText text ≤ start)
    (passed : start < stop) :
    start.AdvancesIn text stop where
  moved := offset_lt_of_lt passed
  within := offset_le_utf8ByteSize (Cursor.le_trans reached (Cursor.le_of_lt passed))

/-- Reading ends, in every loop and in every recursion; and at a cursor of the text it moves on when
it succeeds. -/
structure EndsAndAdvances (text : String) (modes : ModeStack) (start : Cursor) : Prop where
  /-- The readers are the one solution of the equations that their bodies make. -/
  solution : ∀ readers : HostReaders, readers.unfold = readers ↔ readers = .actual
  /-- Unfolded in a number of steps, they are right in all calls of ranks below it. -/
  unfolds : ∀ (deeper : HostReaders) (steps : Nat),
    (deeper.unfolded steps).AgreeBelow steps .actual
  /-- An element meets no limit of seven steps for each character of the text or more. -/
  element_ends :
    ∀ (deeper : HostReaders) (steps : Nat), 7 * (text.length + 1) ≤ steps →
      (deeper.unfolded steps).readElement modes start = readElement hostDelegate modes start
  /-- Nor does an expression. -/
  expression_ends :
    ∀ (deeper : HostReaders) (steps : Nat), 7 * (text.length + 1) ≤ steps →
      ∀ (power : Nat) (stream : TokenStream), stream.cursor = start →
        (deeper.unfolded steps).expression power modes stream = readExpression power modes stream
  /-- An element takes something, and nothing behind the end of the text. -/
  element_advances :
    ∀ element after stop passed,
      readElement hostDelegate modes start = .success element after stop passed →
      start.AdvancesIn text stop
  /-- And so does an expression. -/
  expression_advances :
    ∀ power stream expression after next passed, stream.cursor = start →
      readExpression power modes stream = .success expression after next passed →
      start.AdvancesIn text next.cursor

/-- With any modes, reading ends and advances wherever a text has been read to. -/
theorem endsAndAdvances_advanceBy (text : String) (distance : Nat) (modes : ModeStack) :
    EndsAndAdvances text modes ((Cursor.ofText text).advanceBy distance) := by
  have reached := (Cursor.ofText text).le_advanceBy distance
  have enough {place steps : Nat} (small : place < 7) (limit : 7 * (text.length + 1) ≤ steps) :
      ((Cursor.ofText text).advanceBy distance).rank place < steps :=
    Nat.lt_of_lt_of_le (Cursor.rank_lt_of_place reached small) limit
  constructor
  case solution => exact fun _ => HostReaders.unfold_eq_iff
  case unfolds => exact HostReaders.unfolded_agreeBelow
  case element_ends =>
    intro deeper steps limit
    exact (deeper.unfolded_agreeBelow steps).readElement (enough (by decide) limit)
  case expression_ends =>
    intro deeper steps limit power stream stands
    exact (deeper.unfolded_agreeBelow steps).expression power modes stream
      (stands ▸ enough (by decide) limit)
  case element_advances =>
    intro element after stop passed _
    exact Cursor.advancesIn_of_lt reached passed
  case expression_advances =>
    intro power stream expression after next passed stands _
    exact Cursor.advancesIn_of_lt reached (stands ▸ passed)

end EmbeddedMarkup
