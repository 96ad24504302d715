import EmbeddedMarkup.Proofs.HostText.Reading
import EmbeddedMarkup.Proofs.Reading.Endings
import EmbeddedMarkup.Proofs.Reading.Words

/-!
# Conditions on reading

A reader goes on only from modes and cursors that it comes to, so what holds of them and passes from
one to the next holds wherever a fault is found.  Conditions say what holds of the modes, of the
cursors where something is expected, and therefore of the faults.  An outcome meets them if it is a
success in such modes, with what is asked of the value and of the cursor behind it, or such a fault.

What is known of tokens is stated of cursors alone, and every combinator that readers of host
expressions are put together with hands it on.
-/

namespace EmbeddedMarkup

open TokenStream

/--
What holds of the modes that reading comes to, of the cursors at which something is expected, and of
the faults that it ends with.
-/
structure Conditions where
  modes : ModeStack → Prop
  place : Expected → Cursor → Prop
  fault : Fault → Prop

variable {α β : Type} {P Q : Cursor → Prop} {conditions : Conditions}

/-- The outcome is a success whose value and cursor are `Good`, or a fault as required. -/
inductive Outcome.Meets (conditions : Conditions) (Good : α → Cursor → Prop) : Outcome P α → Prop
  | success {value : α} {modes : ModeStack} {stop : Cursor} {reached : P stop} :
      conditions.modes modes →
      Good value stop →
      Meets conditions Good (.success value modes stop reached)
  | failure {fault : Fault} {modes : ModeStack} :
      conditions.fault fault →
      Meets conditions Good (.failure fault modes)

/-- A reader that ended so succeeded with what is `Good`, or found a fault as required. -/
def Ending.Meets
    {O : (Cursor → Prop) → Type → Type}
    {σ : Type}
    {cursor : σ → Cursor}
    [Ending O σ cursor]
    (outcome : O P α)
    (conditions : Conditions)
    (Good : α → Cursor → Prop) : Prop :=
  (Ending.toOutcome outcome).Meets conditions Good

namespace Conditions

/-- The next token behind a place starts here. -/
def StartsToken (conditions : Conditions) (start : Cursor) : Prop :=
  ∃ expected c, conditions.place expected c ∧ skipTrivia c = ⟨.ok (), start⟩

/-- The span starts where a token does. -/
def StartsSpan (conditions : Conditions) (span : Span) : Prop :=
  ∃ start, conditions.StartsToken start ∧ span.position = start.position

theorem StartsToken.spanTo
    {start : Cursor}
    (starts : conditions.StartsToken start)
    (stop : Cursor) :
    conditions.StartsSpan (start.spanTo stop) :=
  ⟨start, starts, rfl⟩

/-- Behind a value this is expected. -/
abbrev Leads (conditions : Conditions) (α : Type) (expected : Expected) : α → Cursor → Prop :=
  fun _ stop => conditions.place expected stop

/-- The conditions pass over tokens that may be next, and hold of faults found in tokens. -/
structure PassTokens (conditions : Conditions) : Prop where
  behind {expected : Expected} {c d : Cursor} {token : Token} :
    conditions.place expected c →
    readToken c = ⟨.ok token, d⟩ →
    expected.admits token.lexeme = true →
    conditions.place (expected.behind token.lexeme) d
  unread {expected : Expected} {c : Cursor} {fault : LexicalFault} :
    conditions.place expected c →
    (readToken c).outcome = .error fault →
    conditions.fault (.ofLexical fault)
  grammar {span : Span} (cause : GrammarCause) :
    conditions.StartsSpan span → conditions.fault (.grammar cause span)

end Conditions

/-- Where trivia cannot be skipped no token can be read. -/
theorem outcome_readToken_of_skipTrivia
    {c : Cursor}
    {fault : LexicalFault}
    (failed : (skipTrivia c).outcome = .error fault) :
    (readToken c).outcome = .error fault := by
  cases skipped : skipTrivia c with
  | mk outcome stop =>
      rw [skipped] at failed
      subst failed
      rw [readToken, skipped]

/-! ## Outcomes -/

namespace Ending.Meets

variable {Good Better : α → Cursor → Prop} {Fine : β → Cursor → Prop}

section Kinds

variable
  {O : (Cursor → Prop) → Type → Type}
  {σ : Type}
  {cursor : σ → Cursor}
  [Ending O σ cursor]
  {outcome : O P α}

theorem andThen
    {next : α → ModeStack → (place : σ) → P (cursor place) → O Q β}
    (first : Meets outcome conditions Good)
    (second : ∀ value modes place reached,
      conditions.modes modes → Good value (cursor place) →
      Meets (next value modes place reached) conditions Fine) :
    Meets (Ending.andThen outcome next) conditions Fine := by
  unfold Meets at first ⊢
  generalize told : Ending.toOutcome outcome = ended at first
  cases first with
  | success proper good =>
      obtain ⟨place, reached, rfl, rfl⟩ := exists_eq_success told
      rw [andThen_success]
      exact second _ _ _ _ proper good
  | failure allowed =>
      rw [toOutcome_andThen told]
      exact .failure allowed

theorem success
    {value : α}
    {modes : ModeStack}
    {place : σ}
    {reached : P (cursor place)}
    (proper : conditions.modes modes)
    (good : Good value (cursor place)) :
    Meets (Ending.success value modes place reached : O P α) conditions Good := by
  rw [Meets, toOutcome_success]
  exact .success proper good

theorem mono
    (meets : Meets outcome conditions Better)
    (keeps : ∀ value stop, Better value stop → Good value stop) :
    Meets outcome conditions Good := by
  unfold Meets at meets ⊢
  generalize Ending.toOutcome outcome = ended at meets ⊢
  cases meets with
  | success proper better => exact .success proper (keeps _ _ better)
  | failure allowed => exact .failure allowed

theorem map
    {f : α → β}
    (meets : Meets outcome conditions Good)
    (keeps : ∀ value stop, Good value stop → Fine (f value) stop) :
    Meets (Ending.map f outcome) conditions Fine := by
  rw [map_eq_andThen]
  exact meets.andThen fun value _ _ _ proper good => success proper (keeps value _ good)

theorem weaken
    {weaker : ∀ stop, P stop → Q stop}
    (meets : Meets outcome conditions Good) :
    Meets (Ending.weaken outcome weaker) conditions Good := by
  rw [weaken_eq_andThen]
  exact meets.andThen fun _ _ _ _ => success

theorem toOutcome (meets : Meets outcome conditions Good) :
    Meets (Ending.toOutcome outcome) conditions Good :=
  meets

end Kinds

theorem mapModes
    {f : ModeStack → ModeStack}
    {outcome : StreamOutcome P α}
    (keeps : ∀ modes, conditions.modes modes → conditions.modes (f modes))
    (meets : Meets outcome conditions Good) :
    Meets (outcome.mapModes f) conditions Good := by
  cases outcome with
  | success =>
      cases meets with
      | success proper good => exact .success (keeps _ proper) good
  | failure =>
      cases meets with
      | failure allowed => exact .failure allowed

end Ending.Meets

/-! ## Tokens -/

/-- The token ahead of a stream starts where a token does. -/
theorem Conditions.startsSpan_of_look
    {stream : TokenStream}
    {expected : Expected}
    {view : stream.View}
    (there : conditions.place expected stream.cursor)
    (looked : stream.look = .ok view) :
    conditions.StartsSpan view.token.span := by
  obtain ⟨start, _, skipped, -, -, spanned⟩ := readToken_eq_ok_iff.mp (readToken_of_look looked)
  refine ⟨start, ⟨expected, _, there, skipped⟩, ?_⟩
  rw [spanned]
  rfl

namespace Conditions.PassTokens

variable {stream : TokenStream} {modes : ModeStack} {expected : Expected}
  {Fine : β → Cursor → Prop}

/-- A look leads on with a token whose start is known, or finds a fault as required. -/
theorem onLook
    {next : stream.View → StreamOutcome Q β}
    (passes : conditions.PassTokens)
    (there : conditions.place expected stream.cursor)
    (second : ∀ lexeme span here behind still reached passed,
      conditions.StartsSpan span →
      (expected.admits lexeme = true →
        conditions.place (expected.behind lexeme) behind.cursor) →
      Ending.Meets (next ⟨⟨lexeme, span⟩, here, behind, still, reached, passed⟩) conditions Fine) :
    Ending.Meets (stream.onLook modes next) conditions Fine := by
  unfold TokenStream.onLook
  split <;> rename_i looked
  · rename_i view
    exact second _ _ _ _ _ _ _ (startsSpan_of_look there looked)
      (passes.behind there (readToken_of_look looked))
  · exact .failure (passes.unread there (readToken_of_look_eq_error looked))

theorem onNextStart
    {next : (start : Cursor) → stream.cursor ≤ start → StreamOutcome Q β}
    (passes : conditions.PassTokens)
    (there : conditions.place expected stream.cursor)
    (second : ∀ start reached, skipTrivia stream.cursor = ⟨.ok (), start⟩ →
      Ending.Meets (next start reached) conditions Fine) :
    Ending.Meets (stream.onNextStart modes next) conditions Fine := by
  unfold TokenStream.onNextStart
  split
  · rename_i start found
    unfold nextStart at found
    split at found <;> cases found
    rename_i skipped
    exact second _ _ skipped
  · rename_i failed
    unfold nextStart at failed
    split at failed <;> cases failed
    rename_i skipped
    exact .failure (passes.unread there (outcome_readToken_of_skipTrivia (by rw [skipped])))

end Conditions.PassTokens

end EmbeddedMarkup
