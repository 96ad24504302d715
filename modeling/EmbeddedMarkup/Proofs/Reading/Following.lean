import EmbeddedMarkup.Proofs.Expression.LineEnds
import EmbeddedMarkup.Proofs.Reading.Endings
import EmbeddedMarkup.Proofs.Reading.Levels
import EmbeddedMarkup.Proofs.Reading.Words
import EmbeddedMarkup.Proofs.Reading.Yield
import EmbeddedMarkup.Proofs.Tree.Retelling

/-!
# A reader in two renderings

A reader is run on a text and on the text written again, with the same modes.  The second run
follows the first one.  Both succeed, with values that are related and at aligned cursors, or both
fail with the same message at the same place; and the modes that they leave are the same, also
where they fail.

The relation is closed under everything that readers are put together with, so each reader follows
itself because its parts do.
-/

namespace EmbeddedMarkup

variable {α α' β β' : Type} {P P' Q Q' : Cursor → Prop}

/-! ## Lexemes and faults -/

/-- The second cause says the same as the first one. -/
inductive Cause.Follows (ends : LineEnds) : Cause → Cause → Prop
  | same (cause : Cause) : Follows ends cause cause
  | unexpected {found found' : Lexeme} :
      Lexeme.Follows ends found found' →
      Follows ends (.grammar (.unexpected found)) (.grammar (.unexpected found'))
  | expected {found found' : Lexeme} {wanted : Expectation} :
      Lexeme.Follows ends found found' →
      Follows ends (.grammar (.expected found wanted)) (.grammar (.expected found' wanted))

/-- The second fault is the first one in the other text. -/
structure Fault.Follows (r : Rendering) (fault fault' : Fault) : Prop where
  cause : fault.cause.Follows r.ends fault'.cause
  position : fault'.position = r.place fault.position

namespace Cause.Follows

variable {ends : LineEnds} {cause cause' : Cause} (follows : Cause.Follows ends cause cause')

include follows

theorem kind_eq : cause'.kind = cause.kind := by
  cases follows with
  | same => rfl
  | unexpected => rfl
  | expected => rfl

/-- Messages tell the class of a string that was found, and not its value. -/
theorem message_eq : cause'.message = cause.message := by
  cases follows with
  | same => rfl
  | unexpected found =>
      exact congrArg (fun text => "Syntax error, unexpected " ++ text) found.show_eq
  | @expected _ _ wanted found =>
      exact congrArg
        (fun text => "Syntax error, unexpected " ++ text ++ ", expecting " ++ wanted.describe)
        found.describe_eq

end Cause.Follows

/-! ## Moves between modes -/

namespace ModeStack

/-- A move that does not depend on the place where it is asked for, and is refused there. -/
def IsPlaced (step : Position → ModeStep α) : Prop :=
  ∀ modes,
    (∃ value after, ∀ place, step place modes = .ok value after) ∨
    ∃ cause after, ∀ place, step place modes = .error ⟨cause, place⟩ after

theorem isPlaced_openTag : IsPlaced openTag := by
  intro modes
  by_cases allowed : modes.AllowsTags
  · rcases Nat.eq_zero_or_pos modes.levels with exhausted | enough
    · exact .inr ⟨_, _, fun _ => openTag_eq_error allowed exhausted⟩
    · exact .inl ⟨_, _, fun _ => openTag_eq_ok.mpr ⟨allowed, enough, rfl, rfl⟩⟩
  · unfold AllowsTags at allowed
    push Not at allowed
    obtain ⟨depth, header⟩ := allowed
    exact .inr ⟨_, _, fun _ => openTag_eq_refuse header⟩

theorem isPlaced_enterContent : IsPlaced enterContent := by
  intro modes
  unfold enterContent refuse
  cases modes.mode with
  | tagHeader depth => exact .inl ⟨_, _, fun _ => rfl⟩
  | _ => exact .inr ⟨_, _, fun _ => rfl⟩

theorem isPlaced_selfClose : IsPlaced selfClose := by
  intro modes
  unfold selfClose refuse
  cases modes.mode with
  | tagHeader depth => exact .inl ⟨_, _, fun _ => rfl⟩
  | _ => exact .inr ⟨_, _, fun _ => rfl⟩

theorem isPlaced_closeTag : IsPlaced closeTag := by
  intro modes
  unfold closeTag refuse
  cases modes.mode with
  | tagContent depth => exact .inl ⟨_, _, fun _ => rfl⟩
  | _ => exact .inr ⟨_, _, fun _ => rfl⟩

theorem isPlaced_openHole : IsPlaced openHole := by
  intro modes
  unfold openHole refuse
  cases modes.mode with
  | tagHeader depth => exact .inl ⟨_, _, fun _ => rfl⟩
  | tagContent depth => exact .inl ⟨_, _, fun _ => rfl⟩
  | _ => exact .inr ⟨_, _, fun _ => rfl⟩

theorem isPlaced_closeHole : IsPlaced closeHole := by
  intro modes
  unfold closeHole refuse
  cases modes.mode with
  | expressionHole depth owner =>
      cases owned : isOwnedBy owner modes.pop.mode with
      | true => exact .inl ⟨_, _, fun _ => if_pos owned⟩
      | false => exact .inr ⟨_, _, fun _ => if_neg (Bool.eq_false_iff.mp owned)⟩
  | _ => exact .inr ⟨_, _, fun _ => rfl⟩

theorem isPlaced_enterExpression : IsPlaced enterExpression := by
  intro modes
  rcases Nat.eq_zero_or_pos modes.levels with exhausted | enough
  · exact .inr ⟨_, _, fun _ => enterExpression_eq_error exhausted⟩
  · exact .inl ⟨_, _, fun _ => enterExpression_eq_ok.mpr ⟨enough, rfl⟩⟩

end ModeStack

/-! ## Outcomes -/

/-- The second outcome follows the first one, with values that `R` relates. -/
inductive Outcome.Follows (r : Rendering) (R : α → α' → Prop) : Outcome P α → Outcome P' α' → Prop
  | success
      {value : α}
      {value' : α'}
      {modes : ModeStack}
      {stop stop' : Cursor}
      {reached : P stop}
      {reached' : P' stop'} :
      R value value' →
      r.Aligned stop stop' →
      Follows r R (.success value modes stop reached) (.success value' modes stop' reached')
  | failure {fault fault' : Fault} {modes : ModeStack} :
      fault.Follows r fault' →
      Follows r R (.failure fault modes) (.failure fault' modes)

/-- The second of two readers that ended so follows the first one. -/
def Ending.Follows
    {O : (Cursor → Prop) → Type → Type}
    {σ : Type}
    {cursor : σ → Cursor}
    [Ending O σ cursor]
    (r : Rendering)
    (R : α → α' → Prop)
    (outcome : O P α)
    (outcome' : O P' α') : Prop :=
  (Ending.toOutcome outcome).Follows r R (Ending.toOutcome outcome')

/-- The second reading follows the first one, and no modes are involved. -/
inductive ReadFollows (r : Rendering) (R : α → α' → Prop) :
    Except Fault (Read P α) → Except Fault (Read P' α') → Prop
  | ok
      {value : α}
      {value' : α'}
      {stop stop' : Cursor}
      {reached : P stop}
      {reached' : P' stop'} :
      R value value' →
      r.Aligned stop stop' →
      ReadFollows r R (.ok ⟨value, stop, reached⟩) (.ok ⟨value', stop', reached'⟩)
  | error {fault fault' : Fault} :
      fault.Follows r fault' →
      ReadFollows r R (.error fault) (.error fault')

variable {r : Rendering} {R : α → α' → Prop} {S : β → β' → Prop} {modes : ModeStack}

namespace Fault

/-- The same cause at the same place. -/
theorem follows_of_place
    {cause : Cause}
    {position position' : Position}
    (moved : position' = r.place position) :
    Fault.Follows r ⟨cause, position⟩ ⟨cause, position'⟩ :=
  ⟨.same cause, moved⟩

theorem follows_markup {cause : MarkupCause} {c c' : Cursor} (aligned : r.Aligned c c') :
    Fault.Follows r (.markup cause c.position) (.markup cause c'.position) :=
  follows_of_place (r.position_eq aligned)

theorem follows_lexical {cause : LexicalCause} {span : Span} :
    Fault.Follows r (.ofLexical ⟨cause, span⟩) (.ofLexical ⟨cause, r.span span⟩) :=
  follows_of_place (r.position_span span)

end Fault

namespace Ending.Follows

section Kinds

variable
  {O : (Cursor → Prop) → Type → Type}
  {σ : Type}
  {cursor : σ → Cursor}
  [Ending O σ cursor]
  {outcome : O P α}
  {outcome' : O P' α'}

theorem andThen
    {next : α → ModeStack → (place : σ) → P (cursor place) → O Q β}
    {next' : α' → ModeStack → (place : σ) → P' (cursor place) → O Q' β'}
    (first : Follows r R outcome outcome')
    (second : ∀ value value' modes place place' reached reached',
      R value value' →
      r.Aligned (cursor place) (cursor place') →
      Follows r S (next value modes place reached) (next' value' modes place' reached')) :
    Follows r S (Ending.andThen outcome next) (Ending.andThen outcome' next') := by
  unfold Follows at first ⊢
  generalize told : Ending.toOutcome outcome = ended at first
  generalize told' : Ending.toOutcome outcome' = ended' at first
  cases first with
  | success related aligned =>
      obtain ⟨place, reached, rfl, rfl⟩ := exists_eq_success told
      obtain ⟨place', reached', rfl, rfl⟩ := exists_eq_success told'
      rw [andThen_success, andThen_success]
      exact second _ _ _ _ _ _ _ related aligned
  | failure same =>
      rw [toOutcome_andThen told, toOutcome_andThen told']
      exact .failure same

theorem success
    {value : α}
    {value' : α'}
    {place place' : σ}
    {reached : P (cursor place)}
    {reached' : P' (cursor place')}
    (related : R value value')
    (aligned : r.Aligned (cursor place) (cursor place')) :
    Follows r R (Ending.success value modes place reached : O P α)
      (Ending.success value' modes place' reached' : O P' α') := by
  rw [Follows, toOutcome_success, toOutcome_success]
  exact .success related aligned

theorem map
    {k : α → β}
    {k' : α' → β'}
    (follows : Follows r R outcome outcome')
    (keeps : ∀ value value', R value value' → S (k value) (k' value')) :
    Follows r S (Ending.map k outcome) (Ending.map k' outcome') := by
  rw [map_eq_andThen, map_eq_andThen]
  exact follows.andThen fun value value' _ _ _ _ _ related =>
    success (keeps value value' related)

theorem weaken
    {weaker : ∀ stop, P stop → Q stop}
    {weaker' : ∀ stop, P' stop → Q' stop}
    (follows : Follows r R outcome outcome') :
    Follows r R (Ending.weaken outcome weaker) (Ending.weaken outcome' weaker') := by
  rw [weaken_eq_andThen, weaken_eq_andThen]
  exact follows.andThen fun _ _ _ _ _ _ _ => success

/-- Markup has no use for the place of a failure in either run. -/
theorem toOutcome (follows : Follows r R outcome outcome') :
    Follows r R (Ending.toOutcome outcome) (Ending.toOutcome outcome') :=
  follows

end Kinds

section Markup

variable {outcome : Outcome P α} {outcome' : Outcome P' α'}

/-- Look at the second run alone. -/
theorem second_alone
    (shown : ∀ first, first = outcome → Follows r R first outcome') :
    Follows r R outcome outcome' :=
  shown outcome rfl

/-- A move is allowed in both runs or refused in both. -/
theorem afterStep
    {γ : Type}
    {step : Position → ModeStep γ}
    {c c' : Cursor}
    {next : γ → ModeStack → Outcome P α}
    {next' : γ → ModeStack → Outcome P' α'}
    (placed : ModeStack.IsPlaced step)
    (aligned : r.Aligned c c')
    (second : ∀ value modes, Follows r R (next value modes) (next' value modes)) :
    Follows r R (Outcome.afterStep (step c.position) modes next)
      (Outcome.afterStep (step c'.position) modes next') := by
  rw [Outcome.afterStep, Outcome.afterStep]
  rcases placed modes with ⟨value, after, allowed⟩ | ⟨cause, after, refused⟩
  · rw [allowed, allowed]
    exact second value after
  · rw [refused, refused]
    exact .failure (Fault.follows_of_place (r.position_eq aligned))

theorem afterRead
    {read : Except Fault (Read Q β)}
    {read' : Except Fault (Read Q' β')}
    {next : β → (stop : Cursor) → Q stop → Outcome P α}
    {next' : β' → (stop : Cursor) → Q' stop → Outcome P' α'}
    (first : ReadFollows r S read read')
    (second : ∀ value value' stop stop' reached reached',
      S value value' →
      r.Aligned stop stop' →
      Follows r R (next value stop reached) (next' value' stop' reached')) :
    Follows r R (Outcome.afterRead read modes next) (Outcome.afterRead read' modes next') := by
  cases first with
  | ok related aligned => exact second _ _ _ _ _ _ related aligned
  | error same => exact .failure same

end Markup

theorem mapModes
    {f : ModeStack → ModeStack}
    {outcome : StreamOutcome P α}
    {outcome' : StreamOutcome P' α'}
    (follows : Follows r R outcome outcome') :
    Follows r R (outcome.mapModes f) (outcome'.mapModes f) := by
  cases outcome with
  | success =>
      cases outcome' with
      | success =>
          cases follows with
          | success related aligned => exact .success related aligned
      | failure => cases follows
  | failure =>
      cases outcome' with
      | success => cases follows
      | failure =>
          cases follows with
          | failure same => exact .failure same

end Ending.Follows

/-! ## Tokens -/

/-- The second token is the first one in the other text. -/
structure Token.Follows (r : Rendering) (token token' : Token) : Prop where
  lexeme : Lexeme.Follows r.ends token.lexeme token'.lexeme
  span : token'.span = r.span token.span

/-- The second reading of a token follows the first one. -/
inductive LexicalReading.Follows (r : Rendering) (R : α → α' → Prop) :
    LexicalReading α → LexicalReading α' → Prop
  | ok {value : α} {value' : α'} {stop stop' : Cursor} :
      R value value' →
      r.Aligned stop stop' →
      Follows r R ⟨.ok value, stop⟩ ⟨.ok value', stop'⟩
  | error {cause : LexicalCause} {span : Span} {stop stop' : Cursor} :
      r.Aligned stop stop' →
      Follows r R ⟨.error ⟨cause, span⟩, stop⟩ ⟨.error ⟨cause, r.span span⟩, stop'⟩

namespace Rendering

variable {c c' : Cursor}

/-- The same trivia are skipped. -/
theorem follows_skipTrivia (aligned : r.Aligned c c') :
    LexicalReading.Follows r (fun _ _ => True) (skipTrivia c) (skipTrivia c') := by
  fun_induction skipTrivia c generalizing c' with
  | case1 c found =>
      have skipped := skipBlanks aligned
      have found' : CommentReading.ofChars c'.skipBlanks.rest = .absent := by
        rw [r.rest_eq skipped, CommentReading.ofChars_write, found]
        rfl
      rw [skipTrivia_eq_skipBlanks found']
      exact .ok trivial skipped
  | case2 c length found ih =>
      have skipped := skipBlanks aligned
      have found' : CommentReading.ofChars c'.skipBlanks.rest =
          .comment (r.ends.reach c.skipBlanks.rest length) := by
        rw [r.rest_eq skipped, CommentReading.ofChars_write, found]
        rfl
      rw [skipTrivia_comment found']
      exact ih (r.aligned_advanceBy skipped length)
  | case3 c found =>
      have skipped := skipBlanks aligned
      have found' : CommentReading.ofChars c'.skipBlanks.rest = .unterminated := by
        rw [r.rest_eq skipped, CommentReading.ofChars_write, found]
        rfl
      have ended : r.Aligned (c.skipBlanks.advanceBy c.skipBlanks.size)
          (c'.skipBlanks.advanceBy c'.skipBlanks.size) := by
        have moved := r.aligned_advanceBy skipped c.skipBlanks.size
        rwa [Cursor.size, LineEnds.reach_length, ← r.rest_eq skipped] at moved
      rw [skipTrivia]
      split <;> rename_i other <;> rw [found'] at other <;> cases other
      dsimp only
      rw [spanTo_eq skipped ended]
      exact .error ended

/-- A token that starts with no blank is the same. -/
theorem follows_tokenAt
    (aligned : r.Aligned c c')
    (visible : ∀ ch, c.peek? = some ch → isBlank ch = false) :
    LexicalReading.Follows r (Token.Follows r) (tokenAt c) (tokenAt c') := by
  have read := @LexemeReading.follows_ofChars r.ends c.rest visible
  unfold tokenAt
  rw [r.rest_eq aligned]
  generalize LexemeReading.ofChars c.rest = reading at read ⊢
  generalize LexemeReading.ofChars (r.ends.write c.rest) = reading' at read ⊢
  cases read with
  | found follows length =>
      subst length
      have moved := r.aligned_advanceBy aligned
      exact .ok ⟨follows, spanTo_eq aligned (moved _)⟩ (moved _)
  | failed length =>
      subst length
      have moved := r.aligned_advanceBy aligned
      dsimp only [LexemeReading.failed]
      rw [spanTo_eq aligned (moved _)]
      exact .error (moved _)

/-- The next token is the same. -/
theorem follows_readToken (aligned : r.Aligned c c') :
    LexicalReading.Follows r (Token.Follows r) (readToken c) (readToken c') := by
  have skipped := follows_skipTrivia aligned
  unfold readToken
  cases trivia : skipTrivia c with
  | mk outcome start =>
      rw [trivia] at skipped
      generalize skipTrivia c' = trivia' at skipped
      cases skipped with
      | error ended => exact .error ended
      | ok _ started =>
          refine follows_tokenAt started fun ch ahead => ?_
          have still := (of_skipTrivia trivia).1
          rw [← still] at ahead
          exact Cursor.fails_of_peek?_skipWhile ahead

end Rendering

namespace TokenStream

variable {stream stream' : TokenStream}

/-- Both runs see the same token, or both fail to. -/
theorem look_follows (aligned : r.Aligned stream.cursor stream'.cursor) :
    (∃ view view', stream.look = .ok view ∧ stream'.look = .ok view' ∧
      view.token.Follows r view'.token ∧
      r.Aligned view.behind.cursor view'.behind.cursor) ∨
    ∃ cause span, stream.look = .error ⟨cause, span⟩ ∧
      stream'.look = .error ⟨cause, r.span span⟩ := by
  have read := Rendering.follows_readToken aligned
  cases looked : stream.look with
  | ok view =>
      rw [readToken_of_look looked] at read
      generalize seen : readToken stream'.cursor = reading' at read
      cases read with
      | ok follows moved =>
          obtain ⟨view', looked', rfl, rfl⟩ := look_of_readToken seen
          exact .inl ⟨view, view', rfl, looked', follows, moved⟩
  | error fault =>
      have failed := readToken_of_look_eq_error looked
      generalize readToken stream.cursor = reading at read failed
      generalize seen : readToken stream'.cursor = reading' at read
      cases read with
      | ok => cases failed
      | error =>
          cases failed
          refine .inr ⟨_, _, rfl, ?_⟩
          cases looked' : stream'.look with
          | ok view' =>
              rw [readToken_of_look looked'] at seen
              cases seen
          | error fault' =>
              have failed' := readToken_of_look_eq_error looked'
              rw [seen] at failed'
              cases failed'
              rfl

/-- Both runs go on with the lexeme that they see, from aligned streams. -/
theorem follows_onLook
    {next : stream.View → StreamOutcome P α}
    {next' : stream'.View → StreamOutcome P' α'}
    (aligned : r.Aligned stream.cursor stream'.cursor)
    (second : ∀ lexeme lexeme' span here behind here' behind' still reached passed still' reached'
        passed',
      Lexeme.Follows r.ends lexeme lexeme' →
      r.Aligned here.cursor here'.cursor →
      r.Aligned behind.cursor behind'.cursor →
      Ending.Follows r R
        (next ⟨⟨lexeme, span⟩, here, behind, still, reached, passed⟩)
        (next' ⟨⟨lexeme', r.span span⟩, here', behind', still', reached', passed'⟩)) :
    Ending.Follows r R (stream.onLook modes next) (stream'.onLook modes next') := by
  unfold onLook
  rcases look_follows aligned with
    ⟨⟨⟨lexeme, span⟩, here, behind, still, reached, passed⟩,
      ⟨⟨lexeme', span'⟩, here', behind', still', reached', passed'⟩, looked, looked',
      ⟨follows, same⟩, moved⟩ |
    ⟨cause, span, looked, looked'⟩
  · obtain rfl : span' = r.span span := same
    rw [looked, looked']
    refine second lexeme lexeme' span here behind here' behind' still reached passed still' reached'
      passed' follows ?_ moved
    rwa [still, still']
  · rw [looked, looked']
    exact .failure Fault.follows_lexical

/-- Both runs go on where the next token starts. -/
theorem follows_onNextStart
    {next : (start : Cursor) → stream.cursor ≤ start → StreamOutcome P α}
    {next' : (start : Cursor) → stream'.cursor ≤ start → StreamOutcome P' α'}
    (aligned : r.Aligned stream.cursor stream'.cursor)
    (second : ∀ start start' reached reached',
      r.Aligned start start' →
      Ending.Follows r R (next start reached) (next' start' reached')) :
    Ending.Follows r R (stream.onNextStart modes next)
      (stream'.onNextStart modes next') := by
  have skipped := Rendering.follows_skipTrivia aligned
  have starts : (∃ start start', stream.nextStart = .ok start ∧ stream'.nextStart = .ok start' ∧
      r.Aligned start start') ∨
      ∃ cause span, stream.nextStart = .error ⟨cause, span⟩ ∧
        stream'.nextStart = .error ⟨cause, r.span span⟩ := by
    unfold nextStart
    generalize skipTrivia stream.cursor = trivia at skipped ⊢
    generalize skipTrivia stream'.cursor = trivia' at skipped ⊢
    cases skipped with
    | ok _ started => exact .inl ⟨_, _, rfl, rfl, started⟩
    | error => exact .inr ⟨_, _, rfl, rfl⟩
  unfold onNextStart
  rcases starts with ⟨start, start', found, found', started⟩ | ⟨cause, span, failed, failed'⟩
  · split <;> rename_i other <;> rw [found] at other <;> cases other
    split <;> rename_i other' <;> rw [found'] at other' <;> cases other'
    exact second _ _ _ _ started
  · split <;> rename_i other <;> rw [failed] at other <;> cases other
    split <;> rename_i other' <;> rw [failed'] at other' <;> cases other'
    exact .failure Fault.follows_lexical

end TokenStream
end EmbeddedMarkup
