import EmbeddedMarkup.Proofs.Reading.Following
import EmbeddedMarkup.Proofs.Reading.Order
import EmbeddedMarkup.Proofs.Reading.Yield

/-!
# What faults are founded on

A fault tells its cause and a position.  The position is that of a cursor at which reading stood,
and what is ahead of this cursor bears out the cause: where a tag was not allowed to open, markup
is ahead; where a closing tag does not match, `</` is; where something is not closed, its opening
is.
For some causes there is no such cursor, and faults that are founded never have them.
-/

namespace EmbeddedMarkup

open TokenStream

variable {α β : Type}

/-! ## Causes -/

namespace Cursor

/-- One of the texts is ahead. -/
def Opens (c : Cursor) (openings : List String) : Prop :=
  ∃ opening ∈ openings, opening.toList <+: c.rest

/-- An element of this name is opened, or a fragment where the name is empty. -/
def OpensElement (c : Cursor) (name : String) : Prop :=
  ∃ inside, c.eat? '<' = some inside ∧
    (name = "" ∧ inside.skipBlanks.peek? = some '>' ∨
      ∃ named, readTagName inside.skipBlanks = .ok named ∧ named.value = name)

end Cursor

/-- A tag was not allowed to open. -/
def ModeFault.RefusesTag : ModeFault → Prop
  | .notAllowed .openTag _ | .tooManyTags _ => True
  | _ => False

/-- What a fault in host text leaves open. -/
def HostTextCause.openings : HostTextCause → List String
  | .unterminatedString => ["'", "\"", "\x60"]
  | .unterminatedComment => ["/*"]
  | .unterminatedHeredoc => ["<<<"]

/-- What is ahead of a cursor bears out a cause in markup. -/
def MarkupCause.Fits : MarkupCause → Cursor → Prop
  | .expectedElement, _ | .expectedTagName _, _ => False
  | .mismatchedTags mismatch, c => c.Opens ["</"] ∧ mismatch.opening ≠ mismatch.closing
  | .unterminatedElement name, c => c.OpensElement name ∨ c.Opens ["</"]
  | .unterminatedValue, c => c.Opens ["'", "\""]
  | .unterminatedComment, c => c.Opens ["/*"]
  | _, _ => True

/-- What is ahead of a cursor bears out a cause in the tokens of a host expression. -/
def LexicalCause.Fits : LexicalCause → Cursor → Prop
  | .unterminatedComment, c => c.Opens ["/*"]
  | .unterminatedString, c => c.Opens ["'", "\""]
  | _, _ => True

/-- What is ahead of a cursor bears out a cause.  The host language states no causes of its own. -/
def Cause.Fits : Cause → Cursor → Prop
  | .mode fault, c => fault.RefusesTag → startsMarkup c.rest = true
  | .hostText cause, c => c.Opens cause.openings
  | .markup cause, c => cause.Fits c
  | .lexical cause, c => cause.Fits c
  | .grammar _, _ => True
  | .stated _ _, _ => False

/-- The fault is reported at a cursor behind `origin` that bears out its cause. -/
def Fault.IsFounded (origin : Cursor) (fault : Fault) : Prop :=
  ∃ c, origin ≤ c ∧ fault.position = c.position ∧ fault.cause.Fits c

/-! ## Outcomes -/

/-- What is done behind a success matters only for what is yielded. -/
theorem Outcome.andThen_congr_of_yields
    {P Q : Cursor → Prop}
    {outcome : Outcome P α}
    {next next' : α → ModeStack → (stop : Cursor) → P stop → Outcome Q β}
    (same : ∀ value modes stop reached, outcome.Yields value modes stop →
      next value modes stop reached = next' value modes stop reached) :
    outcome.andThen next = outcome.andThen next' := by
  cases outcome with
  | success => exact same _ _ _ _ ⟨_, rfl⟩
  | failure => rfl

/-! ## Moves between modes -/

/-- The move is refused where it is asked for, and opens no tag. -/
def ModeStack.OpensNoTag (step : Position → ModeStep α) : Prop :=
  ∀ place modes refusal after, step place modes = .error refusal after →
    refusal.position = place ∧ ¬refusal.cause.RefusesTag

namespace ModeStack

theorem opensNoTag_enterContent : OpensNoTag enterContent := by
  intro place modes refusal after refused
  unfold enterContent refuse at refused
  split at refused <;> cases refused
  exact ⟨rfl, id⟩

theorem opensNoTag_selfClose : OpensNoTag selfClose := by
  intro place modes refusal after refused
  unfold selfClose refuse at refused
  split at refused <;> cases refused
  exact ⟨rfl, id⟩

theorem opensNoTag_closeTag : OpensNoTag closeTag := by
  intro place modes refusal after refused
  unfold closeTag refuse at refused
  split at refused <;> cases refused
  exact ⟨rfl, id⟩

theorem opensNoTag_openHole : OpensNoTag openHole := by
  intro place modes refusal after refused
  unfold openHole refuse at refused
  split at refused <;> cases refused
  exact ⟨rfl, id⟩

theorem opensNoTag_closeHole : OpensNoTag closeHole := by
  intro place modes refusal after refused
  unfold closeHole refuse at refused
  split at refused
  · split at refused <;> cases refused
    exact ⟨rfl, id⟩
  · cases refused
    exact ⟨rfl, id⟩

theorem opensNoTag_enterExpression : OpensNoTag enterExpression := by
  intro place modes refusal after refused
  unfold enterExpression at refused
  split at refused <;> cases refused
  exact ⟨rfl, id⟩

end ModeStack

end EmbeddedMarkup
