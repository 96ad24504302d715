import EmbeddedMarkup.Expression.Source
import EmbeddedMarkup.Proofs.Reading.Endings

/-!
# What a reading yields

The outcomes of readers carry a proof that the cursor was reached, which stands in the way of
rewriting.  To yield a value, modes and a cursor is a proposition about an outcome that leaves
this proof out.  Every combinator that readers are made of is taken apart here by one
equivalence, so a successful run is read off a reader rule by rule, and is put together again by
the same rules.
-/

namespace EmbeddedMarkup

namespace Outcome

variable {α β : Type} {P Q : Cursor → Prop}

/-- The outcome is a success with this value, these modes and this cursor. -/
def Yields
    (outcome : Outcome P α)
    (value : α)
    (modes : ModeStack)
    (stop : Cursor) : Prop :=
  ∃ reached, outcome = .success value modes stop reached

section Combinators

variable {value : α} {other : β} {modes after : ModeStack} {stop behind : Cursor}

@[simp] theorem yields_success
    {given : α}
    {reached : P stop} :
    (success given modes stop reached).Yields value after behind ↔
      given = value ∧ modes = after ∧ stop = behind := by
  constructor
  · rintro ⟨_, equal⟩
    cases equal
    exact ⟨rfl, rfl, rfl⟩
  · rintro ⟨rfl, rfl, rfl⟩
    exact ⟨reached, rfl⟩

@[simp] theorem not_yields_failure {fault : Fault} :
    ¬(failure fault modes : Outcome P α).Yields value after behind := by
  rintro ⟨_, equal⟩
  cases equal

/-- Going on behind a success yields what the second reader yields there. -/
theorem yields_andThen
    {outcome : Outcome P α}
    {next : α → ModeStack → (stop : Cursor) → P stop → Outcome Q β} :
    (outcome.andThen next).Yields other after behind ↔
      ∃ value modes stop, outcome.Yields value modes stop ∧
        ∃ reached, (next value modes stop reached).Yields other after behind :=
  Ending.exists_andThen_eq_success_iff outcome next

/-- What a reader yields is what the next one starts from. -/
theorem Yields.andThen
    {outcome : Outcome P α}
    {next : α → ModeStack → (stop : Cursor) → P stop → Outcome Q β}
    (first : outcome.Yields value modes stop)
    (second : ∀ reached, (next value modes stop reached).Yields other after behind) :
    (outcome.andThen next).Yields other after behind := by
  obtain ⟨reached, rfl⟩ := first
  exact second reached

theorem yields_map
    {f : α → β}
    {outcome : Outcome P α} :
    (outcome.map f).Yields other after behind ↔
      ∃ value, outcome.Yields value after behind ∧ f value = other :=
  Ending.exists_map_eq_success_iff f outcome

@[simp] theorem yields_weaken
    {outcome : Outcome P α}
    {weaker : ∀ stop, P stop → Q stop} :
    (outcome.weaken weaker).Yields value after behind ↔ outcome.Yields value after behind := by
  cases outcome <;> simp [weaken, andThen]

/-- Going on behind a move between modes needs the move to be allowed. -/
theorem yields_afterStep
    {step : ModeStep α}
    {next : α → ModeStack → Outcome Q β} :
    (afterStep step modes next).Yields other after behind ↔
      ∃ value moved,
        step modes = .ok value moved ∧ (next value moved).Yields other after behind := by
  unfold afterStep
  cases step modes with
  | ok value moved =>
      simp only [EStateM.Result.ok.injEq]
      constructor
      · intro yields
        exact ⟨value, moved, ⟨rfl, rfl⟩, yields⟩
      · rintro ⟨_, _, ⟨rfl, rfl⟩, yields⟩
        exact yields
  | error fault moved => simp

theorem yields_afterRead
    {read : Except Fault (Read P α)}
    {next : α → (stop : Cursor) → P stop → Outcome Q β} :
    (afterRead read modes next).Yields other after behind ↔
      ∃ value, read = .ok value ∧
        (next value.value value.stop value.reached).Yields other after behind := by
  unfold afterRead
  cases read <;> simp

end Combinators

end Outcome

namespace StreamOutcome

variable {α β : Type} {P Q : Cursor → Prop}

/-- The outcome is a success with this value, these modes and this stream. -/
def Yields
    (outcome : StreamOutcome P α)
    (value : α)
    (modes : ModeStack)
    (stream : TokenStream) : Prop :=
  ∃ reached, outcome = .success value modes stream reached

section Combinators

variable {value : α} {other : β} {modes after : ModeStack} {stream behind : TokenStream}

@[simp] theorem yields_success
    {given : α}
    {reached : P stream.cursor} :
    (success given modes stream reached).Yields value after behind ↔
      given = value ∧ modes = after ∧ stream = behind := by
  constructor
  · rintro ⟨_, equal⟩
    cases equal
    exact ⟨rfl, rfl, rfl⟩
  · rintro ⟨rfl, rfl, rfl⟩
    exact ⟨reached, rfl⟩

@[simp] theorem not_yields_failure {fault : Fault} :
    ¬(failure fault modes stream : StreamOutcome P α).Yields value after behind := by
  rintro ⟨_, equal⟩
  cases equal

/-- Going on behind a success yields what the second reader yields there. -/
theorem yields_andThen
    {outcome : StreamOutcome P α}
    {next : α → ModeStack → (stream : TokenStream) → P stream.cursor → StreamOutcome Q β} :
    (outcome.andThen next).Yields other after behind ↔
      ∃ value modes stream, outcome.Yields value modes stream ∧
        ∃ reached, (next value modes stream reached).Yields other after behind :=
  Ending.exists_andThen_eq_success_iff outcome next

theorem yields_map
    {f : α → β}
    {outcome : StreamOutcome P α} :
    (outcome.map f).Yields other after behind ↔
      ∃ value, outcome.Yields value after behind ∧ f value = other :=
  Ending.exists_map_eq_success_iff f outcome

@[simp] theorem yields_weaken
    {outcome : StreamOutcome P α}
    {weaker : ∀ stop, P stop → Q stop} :
    (outcome.weaken weaker).Yields value after behind ↔ outcome.Yields value after behind := by
  cases outcome <;> simp [weaken, andThen]

theorem yields_mapModes
    {f : ModeStack → ModeStack}
    {outcome : StreamOutcome P α} :
    (outcome.mapModes f).Yields value after behind ↔
      ∃ modes, outcome.Yields value modes behind ∧ f modes = after := by
  cases outcome with
  | success given modes stream reached =>
      simp only [mapModes, yields_success]
      constructor
      · rintro ⟨rfl, rfl, rfl⟩
        exact ⟨modes, ⟨rfl, rfl, rfl⟩, rfl⟩
      · rintro ⟨_, ⟨rfl, rfl, rfl⟩, rfl⟩
        exact ⟨rfl, rfl, rfl⟩
  | failure fault modes stream => simp [mapModes]

/-- Markup is told the cursor of the stream. -/
theorem yields_toOutcome
    {outcome : StreamOutcome P α}
    {stop : Cursor} :
    outcome.toOutcome.Yields value after stop ↔
      ∃ stream, outcome.Yields value after stream ∧ stream.cursor = stop := by
  cases outcome <;> simp [toOutcome, and_assoc]

end Combinators

end StreamOutcome

/-- The next token behind a cursor is this lexeme, and ends at the second cursor. -/
def NextLexeme (start : Cursor) (lexeme : Lexeme) (stop : Cursor) : Prop :=
  ∃ span, readToken start = ⟨.ok ⟨lexeme, span⟩, stop⟩

/-- Only one lexeme is next. -/
theorem NextLexeme.unique
    {start stop stop' : Cursor}
    {lexeme lexeme' : Lexeme}
    (first : NextLexeme start lexeme stop)
    (second : NextLexeme start lexeme' stop') :
    lexeme = lexeme' ∧ stop = stop' := by
  obtain ⟨span, read⟩ := first
  obtain ⟨span', read'⟩ := second
  rw [read] at read'
  cases read'
  exact ⟨rfl, rfl⟩

/-- The next token lies ahead. -/
theorem NextLexeme.le
    {start stop : Cursor}
    {lexeme : Lexeme}
    (next : NextLexeme start lexeme stop) :
    start ≤ stop := by
  obtain ⟨span, read⟩ := next
  have reached := le_readToken start
  rwa [read] at reached

/-- Trivia in front of the next token can be skipped. -/
theorem NextLexeme.skipTrivia
    {start stop : Cursor}
    {lexeme : Lexeme}
    (next : NextLexeme start lexeme stop) :
    ∃ first, EmbeddedMarkup.skipTrivia start = ⟨.ok (), first⟩ := by
  obtain ⟨span, read⟩ := next
  unfold readToken at read
  split at read
  · cases read
  · exact ⟨_, by assumption⟩

namespace TokenStream

variable {β : Type} {Q : Cursor → Prop} {stream : TokenStream}

/-- A look shows the token that is read at the cursor. -/
theorem readToken_of_look
    {view : stream.View}
    (looked : stream.look = .ok view) :
    readToken stream.cursor = ⟨.ok view.token, view.behind.cursor⟩ := by
  unfold look at looked
  split at looked
  · rename_i next _
    cases looked
    exact next.read_eq
  · unfold lookahead at looked
    split at looked
    · rename_i token stop read
      cases looked
      exact read
    · cases looked

/-- A look fails where no token can be read. -/
theorem readToken_of_look_eq_error
    {fault : LexicalFault}
    (failed : stream.look = .error fault) :
    (readToken stream.cursor).outcome = .error fault := by
  unfold look at failed
  split at failed
  · cases failed
  · unfold lookahead at failed
    split at failed
    · cases failed
    · rename_i read
      cases failed
      rw [read]

/-- A look succeeds where a token can be read. -/
theorem look_of_readToken
    {token : Token}
    {stop : Cursor}
    (read : readToken stream.cursor = ⟨.ok token, stop⟩) :
    ∃ view, stream.look = .ok view ∧ view.token = token ∧ view.behind.cursor = stop := by
  have shows : ∃ view, stream.look = .ok view := by
    unfold look
    split
    · exact ⟨_, rfl⟩
    · unfold lookahead
      split
      · exact ⟨_, rfl⟩
      · rename_i failed
        rw [failed] at read
        cases read
  obtain ⟨view, looked⟩ := shows
  have seen := readToken_of_look looked
  rw [read] at seen
  cases seen
  exact ⟨view, looked, rfl, rfl⟩

theorem nextLexeme_of_look
    {view : stream.View}
    (looked : stream.look = .ok view) :
    NextLexeme stream.cursor view.token.lexeme view.behind.cursor :=
  ⟨view.token.span, readToken_of_look looked⟩

section Combinators

variable {other : β} {modes after : ModeStack} {behind : TokenStream}

theorem yields_onLook {next : stream.View → StreamOutcome Q β} :
    (stream.onLook modes next).Yields other after behind ↔
      ∃ view, stream.look = .ok view ∧ (next view).Yields other after behind := by
  unfold onLook
  cases stream.look <;> simp

theorem yields_onNextStart
    {next : (start : Cursor) → stream.cursor ≤ start → StreamOutcome Q β} :
    (stream.onNextStart modes next).Yields other after behind ↔
      ∃ start, skipTrivia stream.cursor = ⟨.ok (), start⟩ ∧
        ∃ reached, (next start reached).Yields other after behind := by
  have starts (start : Cursor) :
      stream.nextStart = .ok start ↔ skipTrivia stream.cursor = ⟨.ok (), start⟩ := by
    unfold nextStart
    split <;> rename_i skipped <;> simp [skipped]
  unfold onNextStart
  split
  · rename_i start found
    constructor
    · intro yields
      exact ⟨start, (starts start).mp found, le_of_nextStart found, yields⟩
    · rintro ⟨start', skipped, _, yields⟩
      rw [← starts, found] at skipped
      cases skipped
      exact yields
  · rename_i failed
    constructor
    · intro yields
      exact absurd yields StreamOutcome.not_yields_failure
    · rintro ⟨start', skipped, _⟩
      rw [← starts, failed] at skipped
      cases skipped

end Combinators

end TokenStream
end EmbeddedMarkup
