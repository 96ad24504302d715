import EmbeddedMarkup.Fault
import EmbeddedMarkup.Text.Cursor

/-!
# Outcomes of reading

A reader takes a stack of modes and a cursor.  When it succeeds it gives back a value, the modes
and the cursor behind what it read, together with the fact that this cursor was reached: it
lies at or behind the cursor that the reader started from.  Recursive readers end because of
this fact.  When a reader fails it gives back the fault and the modes as they were at that
moment.

A delegate is a reader for host expressions.  Markup calls it only behind what it has read
itself, so to read an element it is enough to have a delegate for what lies behind the element's
start.
-/

namespace EmbeddedMarkup

/-- A value that was read, and the cursor behind it. -/
structure Read (Reached : Cursor → Prop) (α : Type) where
  value : α
  stop : Cursor
  /-- The cursor was reached from where reading started. -/
  reached : Reached stop

/-- The outcome of a reader that may change modes. -/
inductive Outcome (Reached : Cursor → Prop) (α : Type) where
  /-- A value was read up to `stop`. -/
  | success (value : α) (modes : ModeStack) (stop : Cursor) (reached : Reached stop)
  /-- Reading failed. -/
  | failure (fault : Fault) (modes : ModeStack)

namespace Outcome

variable {α β : Type} {P Q : Cursor → Prop}

/-- Go on behind a success. -/
def andThen
    (outcome : Outcome P α)
    (next : α → ModeStack → (stop : Cursor) → P stop → Outcome Q β) :
    Outcome Q β :=
  match outcome with
  | .success value modes stop reached => next value modes stop reached
  | .failure fault modes => .failure fault modes

/-- Change the value of a success. -/
def map (f : α → β) (outcome : Outcome P α) : Outcome P β :=
  outcome.andThen fun value modes stop reached => .success (f value) modes stop reached

/-- Forget some of what is known about the cursor. -/
def weaken (outcome : Outcome P α) (weaker : ∀ stop, P stop → Q stop) : Outcome Q α :=
  outcome.andThen fun value modes stop reached => .success value modes stop (weaker stop reached)

/-- Go on behind a move between modes. -/
def afterStep
    (step : ModeStep α)
    (modes : ModeStack)
    (next : α → ModeStack → Outcome Q β) :
    Outcome Q β :=
  match step modes with
  | .ok value modes => next value modes
  | .error fault modes => .failure (Fault.ofMode fault) modes

/-- Go on behind a reading that leaves the modes alone. -/
def afterRead
    (read : Except Fault (Read P α))
    (modes : ModeStack)
    (next : α → (stop : Cursor) → P stop → Outcome Q β) :
    Outcome Q β :=
  match read with
  | .ok read => next read.value read.stop read.reached
  | .error fault => .failure fault modes

end Outcome

/-- A reader for host expressions. -/
abbrev Delegate (ε : Type) : Type :=
  ModeStack → (start : Cursor) → Outcome (start ≤ ·) ε

/-- A reader for host expressions that lie behind a cursor. -/
abbrev DelegateBehind (ε : Type) (limit : Cursor) : Type :=
  ModeStack → (start : Cursor) → limit < start → Outcome (start ≤ ·) ε

/-- A reader for host expressions anywhere is one for those behind a cursor. -/
def Delegate.behind {ε : Type} (delegate : Delegate ε) (limit : Cursor) :
    DelegateBehind ε limit :=
  fun modes start _ => delegate modes start

end EmbeddedMarkup
