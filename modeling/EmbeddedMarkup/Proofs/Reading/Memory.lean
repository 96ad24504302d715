import EmbeddedMarkup.Proofs.Reading.Single
import EmbeddedMarkup.Proofs.Reading.Yield

/-!
# Streams without a memory

A stream that remembers no token reads the next one anew whenever it is looked at.  What can be
told of an outcome is its value or fault, the modes, and the cursor; whether the stream behind it
remembers a token cannot be told.  Readers are made of combinators, and each of them gives the same
from a stream without a memory as from one that may have it, but for the memory.
-/

namespace EmbeddedMarkup

variable {α β : Type} {P Q : Cursor → Prop}

namespace TokenStream

variable {stream : TokenStream}

/-- The stream at the same cursor that remembers no token, neither now nor later. -/
def uncached (stream : TokenStream) : TokenStream :=
  fresh false stream.cursor

@[simp] theorem cursor_uncached : stream.uncached.cursor = stream.cursor := rfl

/-- The view of the same token, with streams that remember nothing. -/
def View.uncached (view : stream.View) : stream.uncached.View where
  token := view.token
  here := view.here.uncached
  behind := view.behind.uncached
  here_cursor := view.here_cursor
  le_behind := view.le_behind
  lt_behind := view.lt_behind

/-- Reading at a cursor where a token is known gives this token. -/
theorem lookahead_eq {start : Cursor} (next : Lookahead start) : lookahead start = .ok next := by
  obtain ⟨token, stop, read⟩ := next
  unfold lookahead
  split
  · rename_i read'
    cases read.symm.trans read'
    rfl
  · rename_i failed
    cases read.symm.trans failed

/-- A view of a known token shows the same without a memory. -/
theorem viewOf_uncached (next : Lookahead stream.cursor) :
    stream.uncached.viewOf next = (stream.viewOf next).uncached := by
  obtain ⟨cursor, remembered, remembers⟩ := stream
  cases remembers <;> rfl

/-- A stream without a memory shows the same token, and fails to show one for the same reason. -/
theorem look_uncached : stream.uncached.look = stream.look.map View.uncached := by
  have anew : stream.uncached.look = (lookahead stream.cursor).map stream.uncached.viewOf := rfl
  rw [anew]
  unfold look
  split
  · rename_i next _
    rw [lookahead_eq next]
    exact congrArg Except.ok (viewOf_uncached next)
  · cases lookahead stream.cursor with
    | error fault => rfl
    | ok next => exact congrArg Except.ok (viewOf_uncached next)

end TokenStream

open TokenStream

namespace StreamOutcome

/-- The outcome with a stream that remembers nothing. -/
def uncached (outcome : StreamOutcome P α) : StreamOutcome P α :=
  match outcome with
  | .success value modes stream reached => .success value modes stream.uncached reached
  | .failure fault modes stream => .failure fault modes stream.uncached

/-! ## Combinators -/

variable {outcome outcome' : StreamOutcome P α}

theorem andThen_uncached
    {next next' : α → ModeStack → (stream : TokenStream) → P stream.cursor → StreamOutcome Q β}
    (first : outcome' = outcome.uncached)
    (second : ∀ value modes stream reached,
      next' value modes stream.uncached reached = (next value modes stream reached).uncached) :
    outcome'.andThen next' = (outcome.andThen next).uncached := by
  subst first
  cases outcome with
  | success value modes stream reached => exact second value modes stream reached
  | failure fault modes stream => rfl

theorem map_uncached {f : α → β} (same : outcome' = outcome.uncached) :
    outcome'.map f = (outcome.map f).uncached :=
  andThen_uncached same fun _ _ _ _ => rfl

theorem weaken_uncached
    {weaker weaker' : ∀ stop, P stop → Q stop}
    (same : outcome' = outcome.uncached) :
    outcome'.weaken weaker' = (outcome.weaken weaker).uncached :=
  andThen_uncached same fun _ _ _ _ => rfl

theorem mapModes_uncached {f : ModeStack → ModeStack} (same : outcome' = outcome.uncached) :
    outcome'.mapModes f = (outcome.mapModes f).uncached := by
  subst same
  cases outcome <;> rfl

/-- Markup has no use for the memory. -/
theorem toOutcome_uncached : outcome.uncached.toOutcome = outcome.toOutcome := by
  cases outcome <;> rfl

end StreamOutcome

namespace TokenStream

open StreamOutcome

variable {stream : TokenStream} {modes : ModeStack}

theorem onLook_uncached
    {next : stream.View → StreamOutcome Q β}
    {next' : stream.uncached.View → StreamOutcome Q β}
    (same : ∀ lexeme span here behind stays reached passed,
      next' (View.uncached ⟨⟨lexeme, span⟩, here, behind, stays, reached, passed⟩) =
        (next ⟨⟨lexeme, span⟩, here, behind, stays, reached, passed⟩).uncached) :
    stream.uncached.onLook modes next' = (stream.onLook modes next).uncached := by
  unfold onLook
  rw [look_uncached]
  cases stream.look with
  | error fault => rfl
  | ok view => exact same _ _ _ _ _ _ _

theorem onNextStart_uncached
    {next next' : (start : Cursor) → stream.cursor ≤ start → StreamOutcome Q β}
    (same : ∀ start reached, next' start reached = (next start reached).uncached) :
    stream.uncached.onNextStart modes next' = (stream.onNextStart modes next).uncached := by
  have starts : stream.uncached.nextStart = stream.nextStart := rfl
  unfold onNextStart
  split
  · rename_i start found
    split
    · rename_i start' found'
      cases (found.symm.trans starts).trans found'
      exact same start _
    · rename_i failed
      cases (found.symm.trans starts).trans failed
  · rename_i fault failed
    split
    · rename_i start found
      cases (failed.symm.trans starts).trans found
    · rename_i fault' failed'
      cases (failed.symm.trans starts).trans failed'
      rfl

/-! ## Tokens -/

/-- The reader of a single token has no use for the memory. -/
theorem ReadsOne.uncached
    {use : Token → TokenUse α}
    {outcome : StreamOutcome P α}
    {outcome' : StreamOutcome P α}
    (reads : stream.ReadsOne modes use outcome)
    (reads' : stream.uncached.ReadsOne modes use outcome') :
    outcome' = outcome.uncached := by
  obtain ⟨leads, rfl⟩ := reads
  obtain ⟨leads', rfl⟩ := reads'
  refine onLook_uncached fun lexeme span here behind stays reached passed => ?_
  generalize leads ⟨⟨lexeme, span⟩, here, behind, stays, reached, passed⟩ = led
  generalize leads' (View.uncached ⟨⟨lexeme, span⟩, here, behind, stays, reached, passed⟩) = led'
  dsimp only [View.uncached] at led led' ⊢
  generalize use ⟨lexeme, span⟩ = used at led led'
  cases used with
  | take value => rfl
  | leave value => rfl
  | refuse wanted taken => cases taken <;> rfl

theorem expect_uncached {kind : Symbol} :
    stream.uncached.expect kind modes = (stream.expect kind modes).uncached :=
  readsOne_expect.uncached readsOne_expect

theorem eat_uncached {kind : Symbol} :
    stream.uncached.eat kind modes = (stream.eat kind modes).uncached :=
  readsOne_eat.uncached readsOne_eat

theorem eatIdentifier_uncached :
    stream.uncached.eatIdentifier modes = (stream.eatIdentifier modes).uncached :=
  readsOne_eatIdentifier.uncached readsOne_eatIdentifier

theorem expectVariable_uncached :
    stream.uncached.expectVariable modes = (stream.expectVariable modes).uncached :=
  readsOne_expectVariable.uncached readsOne_expectVariable

theorem expectMemberName_uncached :
    stream.uncached.expectMemberName modes = (stream.expectMemberName modes).uncached :=
  readsOne_expectMemberName.uncached readsOne_expectMemberName

end TokenStream

end EmbeddedMarkup
