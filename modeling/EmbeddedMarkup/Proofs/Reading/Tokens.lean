import EmbeddedMarkup.Proofs.Reading.Rules
import EmbeddedMarkup.Proofs.Reading.Single

/-!
# Taking single tokens

The small readers take a token that is next, or find that it is not.  They leave the modes alone,
and what they take depends on the cursor of the stream only.
-/

namespace EmbeddedMarkup

namespace StreamOutcome

variable {α β : Type} {P Q : Cursor → Prop}

/-- The outcome is a success with this value and these modes, and its stream is at the cursor. -/
def Reaches
    (outcome : StreamOutcome P α)
    (value : α)
    (modes : ModeStack)
    (stop : Cursor) : Prop :=
  ∃ stream, outcome.Yields value modes stream ∧ stream.cursor = stop

variable {value : α} {other : β} {modes after : ModeStack} {stop : Cursor}

theorem Yields.reaches
    {outcome : StreamOutcome P α}
    {stream : TokenStream}
    (yields : outcome.Yields value modes stream) :
    outcome.Reaches value modes stream.cursor :=
  ⟨stream, yields, rfl⟩

@[simp] theorem reaches_success
    {given : α}
    {stream : TokenStream}
    {reached : P stream.cursor} :
    (success given modes stream reached).Reaches value after stop ↔
      given = value ∧ modes = after ∧ stream.cursor = stop := by
  simp [Reaches, and_assoc]

@[simp] theorem not_reaches_failure {fault : Fault} {stream : TokenStream} :
    ¬(failure fault modes stream : StreamOutcome P α).Reaches value after stop := by
  simp [Reaches]

theorem reaches_andThen
    {outcome : StreamOutcome P α}
    {next : α → ModeStack → (stream : TokenStream) → P stream.cursor → StreamOutcome Q β} :
    (outcome.andThen next).Reaches other after stop ↔
      ∃ value modes stream, outcome.Yields value modes stream ∧
        ∃ reached, (next value modes stream reached).Reaches other after stop := by
  constructor
  · rintro ⟨behind, yields, rfl⟩
    obtain ⟨value, modes, stream, first, reached, second⟩ := yields_andThen.mp yields
    exact ⟨value, modes, stream, first, reached, second.reaches⟩
  · rintro ⟨value, modes, stream, first, reached, behind, second, rfl⟩
    exact ⟨behind, yields_andThen.mpr ⟨value, modes, stream, first, reached, second⟩, rfl⟩

/-- What a reader reaches is where the next one starts from. -/
theorem Reaches.andThen
    {outcome : StreamOutcome P α}
    {next : α → ModeStack → (stream : TokenStream) → P stream.cursor → StreamOutcome Q β}
    {middle : Cursor}
    (first : outcome.Reaches value modes middle)
    (second : ∀ stream reached, stream.cursor = middle →
      (next value modes stream reached).Reaches other after stop) :
    (outcome.andThen next).Reaches other after stop := by
  obtain ⟨stream, yields, at_middle⟩ := first
  obtain ⟨reached, equal⟩ := yields
  exact reaches_andThen.mpr
    ⟨value, modes, stream, ⟨reached, equal⟩, reached, second stream reached at_middle⟩

theorem reaches_map
    {f : α → β}
    {outcome : StreamOutcome P α} :
    (outcome.map f).Reaches other after stop ↔
      ∃ value, outcome.Reaches value after stop ∧ f value = other := by
  constructor
  · rintro ⟨behind, yields, rfl⟩
    obtain ⟨value, yields, same⟩ := yields_map.mp yields
    exact ⟨value, yields.reaches, same⟩
  · rintro ⟨value, ⟨behind, yields, rfl⟩, same⟩
    exact ⟨behind, yields_map.mpr ⟨value, yields, same⟩, rfl⟩

@[simp] theorem reaches_weaken
    {outcome : StreamOutcome P α}
    {weaker : ∀ stop, P stop → Q stop} :
    (outcome.weaken weaker).Reaches value after stop ↔ outcome.Reaches value after stop := by
  simp [Reaches]

theorem reaches_mapModes
    {f : ModeStack → ModeStack}
    {outcome : StreamOutcome P α} :
    (outcome.mapModes f).Reaches value after stop ↔
      ∃ modes, outcome.Reaches value modes stop ∧ f modes = after := by
  constructor
  · rintro ⟨behind, yields, rfl⟩
    obtain ⟨modes, yields, same⟩ := yields_mapModes.mp yields
    exact ⟨modes, yields.reaches, same⟩
  · rintro ⟨modes, ⟨behind, yields, rfl⟩, same⟩
    exact ⟨behind, yields_mapModes.mpr ⟨modes, yields, same⟩, rfl⟩

/-- Markup is told what the stream reaches. -/
theorem yields_toOutcome_iff_reaches {outcome : StreamOutcome P α} :
    outcome.toOutcome.Yields value after stop ↔ outcome.Reaches value after stop :=
  yields_toOutcome

end StreamOutcome

/-- A symbol that is not taken leaves the cursor where it is. -/
theorem MayTake.stays
    {kind : Symbol}
    {start stop : Cursor}
    (left : MayTake kind start false stop) :
    stop = start := by
  cases left
  rfl

namespace TokenStream

open StreamOutcome

variable {β : Type} {Q : Cursor → Prop} {stream : TokenStream}
  {modes after : ModeStack} {stop : Cursor}

theorem reaches_onLook {other : β} {next : stream.View → StreamOutcome Q β} :
    (stream.onLook modes next).Reaches other after stop ↔
      ∃ view, stream.look = .ok view ∧ (next view).Reaches other after stop := by
  constructor
  · rintro ⟨behind, yields, rfl⟩
    obtain ⟨view, looked, yields⟩ := yields_onLook.mp yields
    exact ⟨view, looked, yields.reaches⟩
  · rintro ⟨view, looked, behind, yields, rfl⟩
    exact ⟨behind, yields_onLook.mpr ⟨view, looked, yields⟩, rfl⟩

theorem reaches_onNextStart
    {other : β}
    {next : (start : Cursor) → stream.cursor ≤ start → StreamOutcome Q β} :
    (stream.onNextStart modes next).Reaches other after stop ↔
      ∃ start, skipTrivia stream.cursor = ⟨.ok (), start⟩ ∧
        ∃ reached, (next start reached).Reaches other after stop := by
  constructor
  · rintro ⟨behind, yields, rfl⟩
    obtain ⟨start, skipped, reached, yields⟩ := yields_onNextStart.mp yields
    exact ⟨start, skipped, reached, yields.reaches⟩
  · rintro ⟨start, skipped, reached, behind, yields, rfl⟩
    exact ⟨behind, yields_onNextStart.mpr ⟨start, skipped, reached, yields⟩, rfl⟩

/-- A look succeeds where a lexeme is next. -/
theorem look_of_nextLexeme
    {lexeme : Lexeme}
    (next : NextLexeme stream.cursor lexeme stop) :
    ∃ view, stream.look = .ok view ∧ view.token.lexeme = lexeme ∧ view.behind.cursor = stop := by
  obtain ⟨span, read⟩ := next
  obtain ⟨view, looked, token, behind⟩ := look_of_readToken read
  exact ⟨view, looked, by rw [token], behind⟩

/-- A look shows the lexeme that is next. -/
theorem reaches_onLook_of_nextLexeme
    {other : β}
    {next : stream.View → StreamOutcome Q β}
    {lexeme : Lexeme}
    {behind : Cursor}
    (ahead : NextLexeme stream.cursor lexeme behind)
    (shown : ∀ view : stream.View, view.token.lexeme = lexeme → view.behind.cursor = behind →
      (next view).Reaches other after stop) :
    (stream.onLook modes next).Reaches other after stop := by
  obtain ⟨view, looked, found, reached⟩ := look_of_nextLexeme ahead
  exact reaches_onLook.mpr ⟨view, looked, shown view found reached⟩

/-- The next token starts where trivia end. -/
theorem reaches_onNextStart_of_skipTrivia
    {other : β}
    {next : (start : Cursor) → stream.cursor ≤ start → StreamOutcome Q β}
    {start : Cursor}
    (skipped : skipTrivia stream.cursor = ⟨.ok (), start⟩)
    (started : ∀ reached, (next start reached).Reaches other after stop) :
    (stream.onNextStart modes next).Reaches other after stop := by
  have reached := le_skipTrivia stream.cursor
  rw [skipped] at reached
  exact reaches_onNextStart.mpr ⟨start, skipped, reached, started reached⟩

/-- A single token is read, and what is made of it is told. -/
theorem ReadsOne.reaches_iff
    {use : Token → TokenUse β}
    {outcome : StreamOutcome Q β}
    {value : β}
    (reads : stream.ReadsOne modes use outcome) :
    outcome.Reaches value after stop ↔
      after = modes ∧ ∃ token behind, readToken stream.cursor = ⟨.ok token, behind⟩ ∧
        (use token = .take value ∧ behind = stop ∨
          use token = .leave value ∧ stream.cursor = stop) := by
  obtain ⟨leads, rfl⟩ := reads
  rw [reaches_onLook]
  constructor
  · rintro ⟨view, looked, reaches⟩
    have read := readToken_of_look looked
    generalize leads view = led at reaches
    generalize told : use view.token = used at led reaches
    cases used with
    | take given =>
        obtain ⟨rfl, rfl, rfl⟩ := reaches_success.mp reaches
        exact ⟨rfl, _, _, read, .inl ⟨told, rfl⟩⟩
    | leave given =>
        obtain ⟨rfl, rfl, rfl⟩ := reaches_success.mp reaches
        exact ⟨rfl, _, _, read, .inr ⟨told, view.here_cursor.symm⟩⟩
    | refuse wanted taken => exact absurd reaches not_reaches_failure
  · rintro ⟨rfl, token, behind, read, made⟩
    obtain ⟨view, looked, rfl, rfl⟩ := look_of_readToken read
    refine ⟨view, looked, ?_⟩
    generalize leads view = led
    generalize use view.token = used at led made
    rcases made with ⟨rfl, rfl⟩ | ⟨rfl, rfl⟩
    · exact reaches_success.mpr ⟨rfl, rfl, rfl⟩
    · exact reaches_success.mpr ⟨rfl, rfl, view.here_cursor⟩

theorem reaches_expect {kind : Symbol} :
    (stream.expect kind modes).Reaches () after stop ↔
      after = modes ∧ NextLexeme stream.cursor (.symbol kind) stop := by
  rw [readsOne_expect.reaches_iff, and_congr_right_iff]
  intro _
  constructor
  · rintro ⟨⟨lexeme, span⟩, behind, read, ⟨told, rfl⟩ | ⟨told, -⟩⟩
    · obtain rfl : lexeme = .symbol kind := TokenUse.symbol_eq_take.mp told
      exact ⟨span, read⟩
    · exact absurd told TokenUse.symbol_ne_leave
  · rintro ⟨span, read⟩
    exact ⟨_, _, read, .inl ⟨TokenUse.symbol_eq_take.mpr rfl, rfl⟩⟩

theorem reaches_eat {kind : Symbol} {taken : Bool} :
    (stream.eat kind modes).Reaches taken after stop ↔
      after = modes ∧ MayTake kind stream.cursor taken stop := by
  rw [readsOne_eat.reaches_iff, and_congr_right_iff]
  intro _
  constructor
  · rintro ⟨⟨lexeme, span⟩, behind, read, ⟨told, rfl⟩ | ⟨told, rfl⟩⟩
    · obtain ⟨rfl, found⟩ := TokenUse.optionalSymbol_eq_take.mp told
      exact .taken ⟨span, found ▸ read⟩
    · obtain ⟨rfl, other⟩ := TokenUse.optionalSymbol_eq_leave.mp told
      exact .left ⟨span, read⟩ other
  · rintro (⟨span, read⟩ | ⟨⟨span, read⟩, other⟩)
    · exact ⟨_, _, read, .inl ⟨TokenUse.optionalSymbol_eq_take.mpr ⟨rfl, rfl⟩, rfl⟩⟩
    · exact ⟨_, _, read, .inr ⟨TokenUse.optionalSymbol_eq_leave.mpr ⟨rfl, other⟩, rfl⟩⟩

theorem reaches_eatIdentifier :
    (stream.eatIdentifier modes).Reaches () after stop ↔
      after = modes ∧ MayTakeIdentifier stream.cursor stop := by
  rw [readsOne_eatIdentifier.reaches_iff, and_congr_right_iff]
  intro _
  constructor
  · rintro ⟨⟨lexeme, span⟩, behind, read, ⟨told, rfl⟩ | ⟨told, rfl⟩⟩
    · obtain ⟨text, rfl⟩ : ∃ text, lexeme = .word .identifier text :=
        TokenUse.optionalIdentifier_eq_take.mp told
      exact .taken ⟨span, read⟩
    · exact .left ⟨span, read⟩ (TokenUse.optionalIdentifier_eq_leave.mp told)
  · rintro (⟨span, read⟩ | ⟨⟨span, read⟩, other⟩)
    · exact ⟨_, _, read, .inl ⟨TokenUse.optionalIdentifier_eq_take.mpr ⟨_, rfl⟩, rfl⟩⟩
    · exact ⟨_, _, read, .inr ⟨TokenUse.optionalIdentifier_eq_leave.mpr other, rfl⟩⟩

theorem reaches_expectVariable {parameter : Parameter} :
    (stream.expectVariable modes).Reaches parameter after stop ↔
      after = modes ∧
        readToken stream.cursor = ⟨.ok ⟨.variable parameter.name, parameter.span⟩, stop⟩ := by
  rw [readsOne_expectVariable.reaches_iff, and_congr_right_iff]
  intro _
  constructor
  · rintro ⟨token, behind, read, ⟨told, rfl⟩ | ⟨told, -⟩⟩
    · rwa [TokenUse.parameter_eq_take.mp told] at read
    · exact absurd told TokenUse.parameter_ne_leave
  · intro read
    exact ⟨_, _, read, .inl ⟨TokenUse.parameter_eq_take.mpr rfl, rfl⟩⟩

theorem reaches_expectMemberName {name : String} :
    (stream.expectMemberName modes).Reaches name after stop ↔
      after = modes ∧ ∃ kind, NextLexeme stream.cursor (.word kind name) stop := by
  rw [readsOne_expectMemberName.reaches_iff, and_congr_right_iff]
  intro _
  constructor
  · rintro ⟨⟨lexeme, span⟩, behind, read, ⟨told, rfl⟩ | ⟨told, -⟩⟩
    · obtain ⟨kind, rfl⟩ : ∃ kind, lexeme = .word kind name :=
        TokenUse.memberName_eq_take.mp told
      exact ⟨kind, span, read⟩
    · exact absurd told TokenUse.memberName_ne_leave
  · rintro ⟨kind, span, read⟩
    exact ⟨_, _, read, .inl ⟨TokenUse.memberName_eq_take.mpr ⟨kind, rfl⟩, rfl⟩⟩

/-- The parameters that are read follow the rules. -/
theorem reads_of_readParameters
    {level : Nat}
    {list : List Parameter}
    (reaches : (stream.readParameters modes).Reaches list after stop) :
    after = modes ∧ Reads level (.parameters list) stream.cursor stop := by
  induction size : stream.cursor.size using Nat.strongRecOn
    generalizing stream modes list with
  | ind size shorter =>
      subst size
      rw [readParameters, reaches_onLook] at reaches
      obtain ⟨view, looked, reaches⟩ := reaches
      have next := nextLexeme_of_look looked
      split at reaches
      · rename_i found
        obtain ⟨rfl, rfl, rfl⟩ := reaches_success.mp reaches
        exact ⟨rfl, .noParameters (found ▸ next)⟩
      · rename_i other
        rw [reaches_andThen] at reaches
        obtain ⟨nullable, _, typed, yields, toTyped, reaches⟩ := reaches
        obtain ⟨rfl, maybe⟩ := reaches_eat.mp yields.reaches
        rw [reaches_andThen] at reaches
        obtain ⟨_, _, named, yields, toNamed, reaches⟩ := reaches
        obtain ⟨rfl, identifier⟩ := reaches_eatIdentifier.mp yields.reaches
        rw [reaches_andThen] at reaches
        obtain ⟨⟨name, span⟩, _, listed, yields, toListed, reaches⟩ := reaches
        obtain ⟨rfl, read⟩ := reaches_expectVariable.mp yields.reaches
        rw [reaches_andThen] at reaches
        obtain ⟨more, _, rest, yields, toRest, reaches⟩ := reaches
        obtain ⟨rfl, comma⟩ := reaches_eat.mp yields.reaches
        rw [view.here_cursor] at maybe toTyped
        split at reaches
        · rename_i continued
          rw [reaches_weaken, reaches_map] at reaches
          obtain ⟨others, reaches, rfl⟩ := reaches
          have passed : stream.cursor < rest.cursor :=
            Cursor.lt_of_le_of_lt toTyped
              (Cursor.lt_of_le_of_lt toNamed (Cursor.lt_of_lt_of_le toListed toRest))
          obtain ⟨rfl, reads⟩ := shorter _ (Cursor.size_lt_of_lt passed) reaches rfl
          exact ⟨rfl, .moreParameters next other maybe identifier read
            (continued ▸ comma) reads⟩
        · rename_i ended
          rw [reaches_weaken, reaches_map] at reaches
          obtain ⟨_, reaches, rfl⟩ := reaches
          obtain ⟨rfl, closed⟩ := reaches_expect.mp reaches
          obtain rfl : more = false := Bool.eq_false_iff.mpr ended
          have stays := comma.stays
          rw [stays] at comma closed
          exact ⟨rfl, .lastParameter next other maybe identifier read comma closed⟩

end TokenStream
end EmbeddedMarkup
