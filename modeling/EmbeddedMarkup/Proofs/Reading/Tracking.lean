import EmbeddedMarkup.Proofs.Reading.Endings
import EmbeddedMarkup.Proofs.Reading.Levels
import EmbeddedMarkup.Proofs.Reading.Tokens
import EmbeddedMarkup.Proofs.Text.Shift
import EmbeddedMarkup.Proofs.Tree.Respan

/-!
# Two runs side by side

A reader is run twice in front of the same characters: the second time with more text in front of
them and with a budget that may be greater.  The second run tracks the first one.  Both succeed,
with the same value up to the shift of its spans, or both fail with the same cause at the shifted
position; only where the first run used up its budget is nothing said about the second.

For that case the relation records how much budget the first run had.  A reader descends only as
far as there are characters, so what it had was no more than a bound in the number of characters.

The relation says nothing about the modes and the stream that a failed run leaves, which no reader
looks at.
-/

namespace EmbeddedMarkup

variable {α β : Type} {P P' Q Q' : Cursor → Prop}

/-- The text starts with this character. -/
def OpensWith (text : String) (ch : Char) : Prop :=
  text.toList.head? = some ch

namespace OpensWith

variable {text more : String} {ch : Char}

theorem literal {rest : List Char} (spelled : text = String.ofList (ch :: rest)) :
    OpensWith text ch := by
  rw [spelled, OpensWith, String.toList_ofList]
  rfl

theorem append (opens : OpensWith text ch) : OpensWith (text ++ more) ch := by
  rw [OpensWith, String.toList_append, List.head?_append, opens]
  rfl

end OpensWith

/-- The first character of a message about markup. -/
def MarkupCause.initial : MarkupCause → Char
  | .nameStartsWithDigit _ | .invalidName _ | .expectedNameSegment _ => 'I'
  | .mismatchedTags _ => 'J'
  | .spreadInContent => 'S'
  | .unterminatedElement _ | .unterminatedValue | .unterminatedHole | .unterminatedComment
  | .unexpectedCharacter _ _ => 'U'
  | _ => 'E'

theorem MarkupCause.opensWith_initial (cause : MarkupCause) :
    OpensWith cause.message cause.initial := by
  cases cause with
  | expectedTagName found =>
      cases found with
      | none => exact .literal rfl
      | some => exact .append (.literal rfl)
  | expectedValue | invalidName => exact .append (.literal rfl)
  | nameStartsWithDigit | expectedNameSegment | unterminatedElement =>
      exact .append (.append (.literal rfl))
  | mismatchedTags | unexpectedCharacter =>
      exact .append (.append (.append (.append (.literal rfl))))
  | _ => exact .literal rfl

/-- The first character of a message, which is known where the cause is not stated in words. -/
def Cause.initial? : Cause → Option Char
  | .mode (.notAllowed _ _) => some 'C'
  | .mode _ => some 'M'
  | .hostText _ => some 'U'
  | .markup cause => some cause.initial
  | .lexical .missingVariableName => some 'E'
  | .lexical (.invalidNumber _) => some 'I'
  | .lexical _ => some 'U'
  | .grammar .notAssignable => some 'C'
  | .grammar _ => some 'S'
  | .stated _ message => message.toList.head?

theorem Cause.head?_message (cause : Cause) : cause.message.toList.head? = cause.initial? := by
  cases cause with
  | mode fault =>
      cases fault with
      | notAllowed => exact OpensWith.append (.append (.append (.append (.literal rfl))))
      | tooManyTags | tooManyExpressions => exact OpensWith.append (.append (.literal rfl))
  | hostText cause => cases cause <;> exact OpensWith.literal rfl
  | markup cause => exact cause.opensWith_initial
  | lexical cause =>
      cases cause with
      | invalidNumber | unexpectedCharacter => exact OpensWith.append (.literal rfl)
      | _ => exact OpensWith.literal rfl
  | grammar cause =>
      cases cause with
      | unexpected => exact OpensWith.append (.literal rfl)
      | expected => exact OpensWith.append (.append (.append (.literal rfl)))
      | notAssignable => exact OpensWith.literal rfl
  | stated => rfl

namespace Fault

variable {fault : Fault} {budget : Nat}

/-- The fault reports that this budget was used up. -/
def Exceeds (fault : Fault) (budget : Nat) : Prop :=
  fault.cause.kind = .structural ∧
    (fault.cause.message = "Maximum markup nesting depth of " ++ toString budget ++ " exceeded" ∨
      fault.cause.message =
        "Maximum expression nesting depth of " ++ toString budget ++ " exceeded")

/-- The fault reports that some budget was used up. -/
def IsExcess (fault : Fault) : Prop :=
  ∃ budget, fault.Exceeds budget

theorem Exceeds.opensWith (exceeds : fault.Exceeds budget) : OpensWith fault.cause.message 'M' := by
  obtain ⟨-, message | message⟩ := exceeds
  · rw [message]
    exact .append (.append (.literal rfl))
  · rw [message]
    exact .append (.append (.literal rfl))

/-- A message that starts with another character reports no excess. -/
theorem not_isExcess_of_initial? (other : fault.cause.initial? ≠ some 'M') : ¬fault.IsExcess := by
  rintro ⟨budget, exceeds⟩
  rw [← fault.cause.head?_message] at other
  exact other exceeds.opensWith

theorem not_isExcess_markup (cause : MarkupCause) (position : Position) :
    ¬(Fault.markup cause position).IsExcess := by
  refine not_isExcess_of_initial? fun same => ?_
  cases cause <;> cases same

theorem not_isExcess_hostText (cause : HostTextCause) (position : Position) :
    ¬IsExcess ⟨.hostText cause, position⟩ :=
  not_isExcess_of_initial? (by simp [Cause.initial?])

theorem not_isExcess_notAllowed (change : ModeChange) (mode : Mode) (position : Position) :
    ¬IsExcess ⟨.mode (.notAllowed change mode), position⟩ :=
  not_isExcess_of_initial? (by simp [Cause.initial?])

theorem not_isExcess_grammar (cause : GrammarCause) (span : Span) :
    ¬(Fault.grammar cause span).IsExcess := by
  rintro ⟨budget, kind, -⟩
  cases kind

theorem not_isExcess_lexical (fault : LexicalFault) : ¬(Fault.ofLexical fault).IsExcess := by
  rintro ⟨budget, kind, -⟩
  cases kind

end Fault

namespace ModeStack

/-- The modes with another budget. -/
def withBudget (modes : ModeStack) (budget : Nat) : ModeStack :=
  { modes with budget := budget }

variable {modes : ModeStack} {position : Position}

@[simp] theorem withBudget_self (modes : ModeStack) : modes.withBudget modes.budget = modes := rfl

@[simp] theorem withBudget_initial (budget budget' : Nat) :
    (initial budget).withBudget budget' = initial budget' := rfl

/-- A greater budget has more levels. -/
theorem levels_withBudget {budget : Nat} (within : modes.budget ≤ budget) :
    modes.levels ≤ (modes.withBudget budget).levels :=
  Nat.sub_le_sub_right within _

end ModeStack

/--
The second outcome tracks the first one: `shift` is the text in front of the second run, `budget`
its budget, and `f` changes the spans of the value.  The runs leave the given modes.  That the
first run used up its budget is possible only if it was `short`.
-/
inductive Outcome.Tracks
    (shift : Shift)
    (budget : Nat)
    (short : Prop)
    (f : α → α)
    (modes : ModeStack) :
    Outcome P α → Outcome P' α → Prop
  | success {value value' : α} {stop stop' : Cursor} {reached : P stop} {reached' : P' stop'} :
      value' = f value →
      stop' = shift.cursor stop →
      Tracks shift budget short f modes (.success value modes stop reached)
        (.success value' (modes.withBudget budget) stop' reached')
  | failure {fault : Fault} {after after' : ModeStack} :
      (modes.budget ≠ budget → ¬fault.IsExcess) →
      Tracks shift budget short f modes (.failure fault after) (.failure (shift.fault fault) after')
  | exceeded {fault : Fault} {after : ModeStack} {other : Outcome P' α} :
      short →
      modes.budget < budget →
      fault.Exceeds modes.budget →
      Tracks shift budget short f modes (.failure fault after) other

/-- The second of two readers that ended so tracks the first one. -/
def Ending.Tracks
    {O : (Cursor → Prop) → Type → Type}
    {σ : Type}
    {cursor : σ → Cursor}
    [Ending O σ cursor]
    (shift : Shift)
    (budget : Nat)
    (short : Prop)
    (f : α → α)
    (modes : ModeStack)
    (outcome : O P α)
    (outcome' : O P' α) : Prop :=
  (Ending.toOutcome outcome).Tracks shift budget short f modes (Ending.toOutcome outcome')

/-- A reading of the second run tracks that of the first one, and no budget is involved. -/
inductive ReadTracks (shift : Shift) (f : α → α) :
    Except Fault (Read P α) → Except Fault (Read P' α) → Prop
  | ok {value value' : α} {stop stop' : Cursor} {reached : P stop} {reached' : P' stop'} :
      value' = f value →
      stop' = shift.cursor stop →
      ReadTracks shift f (.ok ⟨value, stop, reached⟩) (.ok ⟨value', stop', reached'⟩)
  | error {fault : Fault} :
      ¬fault.IsExcess →
      ReadTracks shift f (.error fault) (.error (shift.fault fault))

variable
  {shift : Shift}
  {budget : Nat}
  {short short' : Prop}
  {f : α → α}
  {g : β → β}
  {modes middle : ModeStack}

namespace Ending.Tracks

section Kinds

variable
  {O : (Cursor → Prop) → Type → Type}
  {σ : Type}
  {cursor : σ → Cursor}
  [Ending O σ cursor]
  {outcome : O P α}
  {outcome' : O P' α}

theorem mono
    (tracks : Tracks shift budget short f modes outcome outcome')
    (implies : short → short') :
    Tracks shift budget short' f modes outcome outcome' := by
  unfold Tracks at tracks ⊢
  generalize Ending.toOutcome outcome = ended at tracks ⊢
  generalize Ending.toOutcome outcome' = ended' at tracks ⊢
  cases tracks with
  | success value aligned => exact .success value aligned
  | failure own => exact .failure own
  | exceeded few less exceeds => exact .exceeded (implies few) less exceeds

theorem andThen
    {next : α → ModeStack → (place : σ) → P (cursor place) → O Q β}
    {next' : α → ModeStack → (place : σ) → P' (cursor place) → O Q' β}
    (first : Tracks shift budget short f middle outcome outcome')
    (sameBudget : middle.budget = modes.budget)
    (second : ∀ value place place' reached reached',
      cursor place' = shift.cursor (cursor place) →
      Tracks shift budget short g modes (next value middle place reached)
        (next' (f value) (middle.withBudget budget) place' reached')) :
    Tracks shift budget short g modes (Ending.andThen outcome next)
      (Ending.andThen outcome' next') := by
  unfold Tracks at first ⊢
  generalize told : Ending.toOutcome outcome = ended at first
  generalize told' : Ending.toOutcome outcome' = ended' at first
  cases first with
  | success same aligned =>
      obtain ⟨place, reached, rfl, rfl⟩ := exists_eq_success told
      obtain ⟨place', reached', rfl, rfl⟩ := exists_eq_success told'
      rw [andThen_success, andThen_success, same]
      exact second _ _ _ _ _ aligned
  | failure own =>
      rw [toOutcome_andThen told, toOutcome_andThen told']
      exact .failure (sameBudget ▸ own)
  | exceeded few less exceeds =>
      rw [toOutcome_andThen told]
      exact .exceeded few (sameBudget ▸ less) (sameBudget ▸ exceeds)

theorem success
    {value value' : α}
    {place place' : σ}
    {reached : P (cursor place)}
    {reached' : P' (cursor place')}
    (same : value' = f value)
    (aligned : cursor place' = shift.cursor (cursor place)) :
    Tracks shift budget short f modes (Ending.success value modes place reached : O P α)
      (Ending.success value' (modes.withBudget budget) place' reached' : O P' α) := by
  rw [Tracks, toOutcome_success, toOutcome_success]
  exact .success same aligned

theorem map
    {k k' : α → β}
    (tracks : Tracks shift budget short f modes outcome outcome')
    (commutes : ∀ value, k' (f value) = g (k value)) :
    Tracks shift budget short g modes (Ending.map k outcome) (Ending.map k' outcome') := by
  rw [map_eq_andThen, map_eq_andThen]
  exact tracks.andThen rfl fun value _ _ _ _ => success (commutes value)

theorem weaken
    {weaker : ∀ stop, P stop → Q stop}
    {weaker' : ∀ stop, P' stop → Q' stop}
    (tracks : Tracks shift budget short f modes outcome outcome') :
    Tracks shift budget short f modes (Ending.weaken outcome weaker)
      (Ending.weaken outcome' weaker') := by
  rw [weaken_eq_andThen, weaken_eq_andThen]
  exact tracks.andThen rfl fun _ _ _ _ _ => success rfl

theorem toOutcome (tracks : Tracks shift budget short f modes outcome outcome') :
    Tracks shift budget short f modes (Ending.toOutcome outcome) (Ending.toOutcome outcome') :=
  tracks

end Kinds

section Markup

variable {outcome : Outcome P α} {outcome' : Outcome P' α}

theorem markup
    {cause : MarkupCause}
    {position position' : Position}
    {after after' : ModeStack}
    (moved : position' = shift.position position) :
    Tracks shift budget short f modes
      (.failure (.markup cause position) after : Outcome P α)
      (.failure (.markup cause position') after' : Outcome P' α) := by
  subst moved
  exact .failure fun _ => Fault.not_isExcess_markup _ _

/-- Look at the second run alone. -/
theorem second_alone
    (shown : ∀ first, first = outcome → Tracks shift budget short f modes first outcome') :
    Tracks shift budget short f modes outcome outcome' :=
  shown outcome rfl

/-- A move that both runs are allowed leads on. -/
theorem afterStep
    {step step' : ModeStep β}
    {value : β}
    {before before' after after' : ModeStack}
    {next : β → ModeStack → Outcome P α}
    {next' : β → ModeStack → Outcome P' α}
    (allowed : step before = .ok value after)
    (allowed' : step' before' = .ok value after')
    (second : Tracks shift budget short f modes (next value after) (next' value after')) :
    Tracks shift budget short f modes (Outcome.afterStep step before next)
      (Outcome.afterStep step' before' next') := by
  rw [Outcome.afterStep, Outcome.afterStep, allowed, allowed']
  exact second

theorem afterRead
    {read : Except Fault (Read Q β)}
    {read' : Except Fault (Read Q' β)}
    {after after' : ModeStack}
    {next : β → (stop : Cursor) → Q stop → Outcome P α}
    {next' : β → (stop : Cursor) → Q' stop → Outcome P' α}
    (first : ReadTracks shift g read read')
    (second : ∀ value stop stop' reached reached',
      stop' = shift.cursor stop →
      Tracks shift budget short f modes (next value stop reached)
        (next' (g value) stop' reached')) :
    Tracks shift budget short f modes (Outcome.afterRead read after next)
      (Outcome.afterRead read' after' next') := by
  cases first with
  | ok value aligned =>
      subst value
      exact second _ _ _ _ _ aligned
  | error own => exact .failure fun _ => own

end Markup

section Tokens

variable {outcome : StreamOutcome P α} {outcome' : StreamOutcome P' α}

theorem grammar
    {cause : GrammarCause}
    {span span' : Span}
    {after after' : ModeStack}
    {stream stream' : TokenStream}
    (moved : span' = shift.span span) :
    Tracks shift budget short f modes
      (.failure (.grammar cause span) after stream : StreamOutcome P α)
      (.failure (.grammar cause span') after' stream' : StreamOutcome P' α) := by
  subst moved
  exact .failure fun _ => Fault.not_isExcess_grammar _ _

/-- The charge of a nested expression is given back in both runs. -/
theorem exitExpression
    (tracks : Tracks shift budget short f modes.charged outcome outcome') :
    Tracks shift budget short f modes (outcome.mapModes ModeStack.exitExpression)
      (outcome'.mapModes ModeStack.exitExpression) := by
  cases outcome with
  | success =>
      cases outcome' with
      | success =>
          cases tracks with
          | success same aligned => exact .success same aligned
      | failure => cases tracks
  | failure =>
      cases outcome' with
      | success =>
          cases tracks with
          | exceeded few less exceeds => exact .exceeded few less exceeds
      | failure =>
          cases tracks with
          | failure own => exact .failure own
          | exceeded few less exceeds => exact .exceeded few less exceeds

end Tokens

end Ending.Tracks

namespace TokenStream

variable {stream stream' : TokenStream}

/-- Both runs see the same token, or both fail to. -/
theorem look_aligned (aligned : stream'.cursor = shift.cursor stream.cursor) :
    (∃ view view', stream.look = .ok view ∧ stream'.look = .ok view' ∧
      view'.token = shift.token view.token ∧
      view'.behind.cursor = shift.cursor view.behind.cursor) ∨
    ∃ fault, stream.look = .error fault ∧
      stream'.look = .error ⟨fault.cause, shift.span fault.span⟩ := by
  have read' := shift.readToken_cursor stream.cursor
  rw [← aligned] at read'
  cases looked : stream.look with
  | ok view =>
      rw [readToken_of_look looked] at read'
      obtain ⟨view', looked', token, behind⟩ := look_of_readToken read'
      exact .inl ⟨view, view', rfl, looked', token, behind⟩
  | error fault =>
      have failed : (readToken stream'.cursor).outcome =
          .error ⟨fault.cause, shift.span fault.span⟩ := by
        rw [read', Shift.reading, readToken_of_look_eq_error looked]
      refine .inr ⟨fault, rfl, ?_⟩
      cases looked' : stream'.look with
      | ok view' =>
          rw [readToken_of_look looked'] at failed
          cases failed
      | error fault' =>
          rw [readToken_of_look_eq_error looked'] at failed
          cases failed
          rfl

/-- Both runs go on with the lexeme that they see, from streams at the same distance. -/
theorem tracks_onLook
    {after after' : ModeStack}
    {next : stream.View → StreamOutcome P α}
    {next' : stream'.View → StreamOutcome P' α}
    (aligned : stream'.cursor = shift.cursor stream.cursor)
    (second : ∀ lexeme span here behind here' behind' still reached passed still' reached' passed',
      here'.cursor = shift.cursor here.cursor →
      behind'.cursor = shift.cursor behind.cursor →
      Ending.Tracks shift budget short f modes
        (next ⟨⟨lexeme, span⟩, here, behind, still, reached, passed⟩)
        (next' ⟨⟨lexeme, shift.span span⟩, here', behind', still', reached', passed'⟩)) :
    Ending.Tracks shift budget short f modes (stream.onLook after next)
      (stream'.onLook after' next') := by
  unfold onLook
  rcases look_aligned aligned with
    ⟨⟨⟨lexeme, span⟩, here, behind, still, reached, passed⟩,
      ⟨token', here', behind', still', reached', passed'⟩, looked, looked', token, moved⟩ |
    ⟨fault, looked, looked'⟩
  · obtain rfl : token' = shift.token ⟨lexeme, span⟩ := token
    rw [looked, looked']
    refine second lexeme span here behind here' behind' still reached passed still' reached'
      passed' ?_ moved
    rw [still, still', aligned]
  · rw [looked, looked']
    exact .failure fun _ => Fault.not_isExcess_lexical fault

/-- Both runs go on where the next token starts. -/
theorem tracks_onNextStart
    {after after' : ModeStack}
    {next : (start : Cursor) → stream.cursor ≤ start → StreamOutcome P α}
    {next' : (start : Cursor) → stream'.cursor ≤ start → StreamOutcome P' α}
    (aligned : stream'.cursor = shift.cursor stream.cursor)
    (second : ∀ start start' reached reached',
      start' = shift.cursor start →
      Ending.Tracks shift budget short f modes (next start reached)
        (next' start' reached')) :
    Ending.Tracks shift budget short f modes (stream.onNextStart after next)
      (stream'.onNextStart after' next') := by
  have starts : stream'.nextStart =
      match stream.nextStart with
      | .ok start => .ok (shift.cursor start)
      | .error fault => .error ⟨fault.cause, shift.span fault.span⟩ := by
    unfold nextStart
    rw [aligned, Shift.skipTrivia_cursor]
    obtain ⟨outcome, stop⟩ := skipTrivia stream.cursor
    cases outcome <;> rfl
  unfold onNextStart
  split
  · rename_i start found
    rw [found] at starts
    split
    · rename_i start' found'
      rw [starts] at found'
      cases found'
      exact second _ _ _ _ rfl
    · rename_i fault failed
      rw [starts] at failed
      cases failed
  · rename_i fault failed
    rw [failed] at starts
    split
    · rename_i start' found'
      rw [starts] at found'
      cases found'
    · rename_i fault' failed'
      rw [starts] at failed'
      cases failed'
      exact .failure fun _ => Fault.not_isExcess_lexical fault

end TokenStream
end EmbeddedMarkup
