import EmbeddedMarkup.Expression.Source
import EmbeddedMarkup.Proofs.Markup.Abandonment
import EmbeddedMarkup.Proofs.Reading.Single

/-!
# Reading on after failures

The readers of host expressions leave the modes alone or fail on them, and so does the reader of
elements with host expressions in its holes.  So modes that are used for one text after the other
keep their charge, whatever fails.
-/

namespace EmbeddedMarkup

open TokenStream StreamOutcome

section Tokens

variable {modes : ModeStack} {stream : TokenStream}

/-- The reader of a single token leaves the modes alone, or fails on them. -/
theorem TokenStream.ReadsOne.spares
    {α : Type}
    {Q : Cursor → Prop}
    {use : Token → TokenUse α}
    {outcome : StreamOutcome Q α}
    (reads : stream.ReadsOne modes use outcome) :
    Ending.Spares modes outcome := by
  obtain ⟨leads, rfl⟩ := reads
  refine .onLook ?_
  intro lexeme span here behind still reached passed
  generalize leads ⟨⟨lexeme, span⟩, here, behind, still, reached, passed⟩ = led
  generalize use _ = used at led
  cases used with
  | take value => exact .success
  | leave value => exact .success
  | refuse wanted taken => exact .here

theorem spares_expect {kind : Symbol} : Ending.Spares modes (stream.expect kind modes) :=
  readsOne_expect.spares

theorem spares_eat {kind : Symbol} : Ending.Spares modes (stream.eat kind modes) :=
  readsOne_eat.spares

theorem spares_eatIdentifier : Ending.Spares modes (stream.eatIdentifier modes) :=
  readsOne_eatIdentifier.spares

theorem spares_expectVariable : Ending.Spares modes (stream.expectVariable modes) :=
  readsOne_expectVariable.spares

theorem spares_expectMemberName : Ending.Spares modes (stream.expectMemberName modes) :=
  readsOne_expectMemberName.spares

theorem spares_readParameters : Ending.Spares modes (stream.readParameters modes) := by
  induction size : stream.cursor.size using Nat.strongRecOn generalizing stream with
  | ind size shorter =>
      subst size
      rw [readParameters]
      refine .onLook ?_
      intro lexeme span here behind still reached passed
      dsimp only
      split
      · exact .success
      · refine spares_eat.andThen ?_
        intro _ typed reached
        refine spares_eatIdentifier.andThen ?_
        intro _ named reached'
        refine spares_expectVariable.andThen ?_
        intro parameter listed passed
        refine spares_eat.andThen ?_
        intro more next reached''
        split
        · have passed : stream.cursor < next.cursor :=
            still ▸ Cursor.lt_of_le_of_lt reached
              (Cursor.lt_of_le_of_lt reached' (Cursor.lt_of_lt_of_le passed reached''))
          exact (shorter _ (Cursor.size_lt_of_lt passed) rfl).map.weaken
        · exact spares_expect.map.weaken

end Tokens

mutual

/-- The level that an expression takes is given back, also when reading fails inside it. -/
theorem spares_readExpression
    {power : Nat}
    {modes : ModeStack}
    {stream : TokenStream}
    (proper : modes.frames ≠ []) :
    Ending.Spares modes (readExpression power modes stream) := by
  rw [readExpression]
  refine .onNextStart ?_
  intro start _
  rcases Nat.eq_zero_or_pos modes.levels with none_left | enough
  · rw [ModeStack.enterExpression_eq_error none_left]
    exact .here
  · have entered := @ModeStack.enterExpression_eq_ok modes modes.charged start.position
    rw [entered.mpr ⟨enough, rfl⟩]
    have chargedProper : modes.charged.frames ≠ [] := proper
    refine .exitExpression (entered.mpr ⟨enough, rfl⟩) ?_
    refine (spares_readOperand chargedProper).andThen ?_
    intro left behind passed
    exact (spares_continueExpression chargedProper).weaken
termination_by (stream.cursor.size, 3)
decreasing_by
  · exact Prod.Lex.right _ (by decide)
  · exact Prod.Lex.left _ _ (Cursor.size_lt_of_lt passed)

theorem spares_continueExpression
    {start : Cursor}
    {power : Nat}
    {left : Expression}
    {modes : ModeStack}
    {stream : TokenStream}
    (proper : modes.frames ≠ []) :
    Ending.Spares modes (continueExpression start power left modes stream) := by
  rw [continueExpression]
  refine .onLook ?_
  intro lexeme span here behind still reached passed
  dsimp only
  split
  · exact .success
  · rename_i binding connects
    split
    · exact .success
    · have passed : stream.cursor < behind.cursor :=
        passed (Lexeme.ne_endOfInput_of_binding? connects)
      refine (spares_readConnected proper).andThen ?_
      intro form next farther
      have farther : stream.cursor < next.cursor := Cursor.lt_trans passed farther
      exact (spares_continueExpression proper).weaken
termination_by (stream.cursor.size, 0)
decreasing_by
  · exact Prod.Lex.left _ _ (Cursor.size_lt_of_lt passed)
  · exact Prod.Lex.left _ _ (Cursor.size_lt_of_lt farther)

theorem spares_readConnected
    {binding : Binding}
    {left : Expression}
    {modes : ModeStack}
    {stream : TokenStream}
    (proper : modes.frames ≠ []) :
    Ending.Spares modes (readConnected binding left modes stream) := by
  rw [readConnected]
  split
  · exact (spares_readExpression proper).map
  · split
    · exact (spares_readExpression proper).map
    · exact .here
  · refine (spares_readExpressionUnless proper).andThen ?_
    intro ifTrue next reached
    refine spares_expect.andThen ?_
    intro _ behind passed
    have passed : stream.cursor < behind.cursor := Cursor.lt_of_le_of_lt reached passed
    exact (spares_readExpression proper).map.weaken
termination_by (stream.cursor.size, 5)
decreasing_by
  · exact Prod.Lex.right _ (by decide)
  · exact Prod.Lex.right _ (by decide)
  · exact Prod.Lex.right _ (by decide)
  · exact Prod.Lex.left _ _ (Cursor.size_lt_of_lt passed)

theorem spares_readExpressionUnless
    {kind : Symbol}
    {modes : ModeStack}
    {stream : TokenStream}
    (proper : modes.frames ≠ []) :
    Ending.Spares modes (readExpressionUnless kind modes stream) := by
  rw [readExpressionUnless]
  refine .onLook ?_
  intro lexeme span here behind still reached passed
  dsimp only
  split
  · exact .success
  · exact (spares_readExpression proper).map.weaken
termination_by (stream.cursor.size, 4)
decreasing_by
  rw [still]
  exact Prod.Lex.right _ (by decide)

/-- Markup in an expression is read with the reader of expressions for its holes. -/
theorem spares_readOperand
    {modes : ModeStack}
    {stream : TokenStream}
    (proper : modes.frames ≠ []) :
    Ending.Spares modes (readOperand modes stream) := by
  rw [readOperand]
  refine .onNextStart ?_
  intro start reached
  split
  · have delegates : @DelegateBehind.Spares Expression start
        (fun modes inside _ =>
          (readExpression 0 modes (fresh stream.remembers inside)).toOutcome.weaken
            fun _ => Cursor.le_of_lt) := by
      intro modes inside ahead proper
      have fewer := Cursor.size_lt_of_lt (Cursor.lt_of_le_of_lt reached ahead)
      exact (@spares_readExpression 0 modes (fresh stream.remembers inside) proper).toOutcome.weaken
    have element := @spares_readElementBehind _ _ _ _ delegates modes start start.le_refl proper
    generalize @readElementBehind Expression _ _ _ modes start _ = outcome at element ⊢
    cases element with
    | success => exact .success
    | failure abandoned => exact .failure abandoned
  · refine .onLook ?_
    intro lexeme span here behind still le passed
    dsimp only
    split
    · have passed : stream.cursor < behind.cursor := passed (by simp)
      exact (spares_readExpression proper).andThen fun _ _ _ => .success
    · have passed : stream.cursor < behind.cursor := passed (by simp)
      exact (spares_readExpression proper).andThen fun _ _ _ => .success
    · refine (spares_readPrimary proper).andThen ?_
      intro primary next farther
      have farther : stream.cursor < next.cursor := still ▸ farther
      exact (spares_continueOperand proper).weaken
termination_by (stream.cursor.size, 2)
decreasing_by
  · exact Prod.Lex.left _ _ (Cursor.size_lt_of_lt passed)
  · exact Prod.Lex.left _ _ (Cursor.size_lt_of_lt passed)
  · rw [still]
    exact Prod.Lex.right _ (by decide)
  · exact Prod.Lex.left _ _ (Cursor.size_lt_of_lt farther)
  · exact Prod.Lex.left _ _ fewer

theorem spares_readPrimary
    {modes : ModeStack}
    {stream : TokenStream}
    (proper : modes.frames ≠ []) :
    Ending.Spares modes (readPrimary modes stream) := by
  rw [readPrimary]
  refine .onNextStart ?_
  intro start _
  refine .onLook ?_
  intro lexeme span here behind still reached passed
  dsimp only
  split
  · exact .success
  · exact .success
  · exact .success
  · exact .success
  · have passed : stream.cursor < behind.cursor := passed (by simp)
    split
    · refine .onLook ?_
      intro lexeme span here behind' still reached' passed'
      dsimp only
      split
      · rename_i opened
        have passed : stream.cursor < behind'.cursor :=
          Cursor.lt_trans passed (passed' (by simp [opened]))
        exact (spares_readEntries proper).andThen fun _ _ _ => .success
      · exact .success
    · exact .success
  · have passed : stream.cursor < behind.cursor := passed (by simp)
    exact (spares_readEntries proper).andThen fun _ _ _ => .success
  · have passed : stream.cursor < behind.cursor := passed (by simp)
    exact (spares_readArrowFunction proper).andThen fun _ _ _ => .success
  · have passed : stream.cursor < behind.cursor := passed (by simp)
    exact (spares_readExpression proper).andThen fun _ _ _ => spares_expect.map.weaken
  · exact .here
termination_by (stream.cursor.size, 1)
decreasing_by
  all_goals exact Prod.Lex.left _ _ (Cursor.size_lt_of_lt passed)

theorem spares_readArrowFunction
    {modes : ModeStack}
    {stream : TokenStream}
    (proper : modes.frames ≠ []) :
    Ending.Spares modes (readArrowFunction modes stream) := by
  rw [readArrowFunction]
  refine spares_expect.andThen ?_
  intro _ opened passed
  refine spares_readParameters.andThen ?_
  intro parameters closed passed'
  refine spares_expect.andThen ?_
  intro _ body passed''
  have passed : stream.cursor < body.cursor :=
    Cursor.lt_trans passed (Cursor.lt_trans passed' passed'')
  exact (spares_readExpression proper).map.weaken
termination_by (stream.cursor.size, 4)
decreasing_by exact Prod.Lex.left _ _ (Cursor.size_lt_of_lt passed)

theorem spares_readEntries
    {close : Symbol}
    {keyed : Bool}
    {modes : ModeStack}
    {stream : TokenStream}
    (proper : modes.frames ≠ []) :
    Ending.Spares modes (readEntries close keyed modes stream) := by
  rw [readEntries]
  refine .onLook ?_
  intro lexeme span here behind still le passed
  dsimp only
  split
  · exact .success
  · refine .onNextStart ?_
    intro start _
    refine spares_eat.andThen ?_
    intro unpack first reached
    have reached : stream.cursor ≤ first.cursor := still ▸ reached
    refine (spares_readExpression proper).andThen ?_
    intro value next passed
    have passed : stream.cursor < next.cursor := Cursor.lt_of_le_of_lt reached passed
    refine (spares_readKeyedValue proper).andThen ?_
    intro pair pairEnd reached'
    refine spares_eat.andThen ?_
    intro more rest reached''
    have farther : stream.cursor < rest.cursor :=
      Cursor.lt_of_lt_of_le passed (Cursor.le_trans reached' reached'')
    split
    · exact (spares_readEntries proper).map.weaken
    · exact spares_expect.map.weaken
termination_by (stream.cursor.size, 4)
decreasing_by
  · rcases Nat.lt_or_eq_of_le (Cursor.size_le_of_le reached) with less | same
    · exact Prod.Lex.left _ _ less
    · rw [same]
      exact Prod.Lex.right _ (by decide)
  · exact Prod.Lex.left _ _ (Cursor.size_lt_of_lt passed)
  · exact Prod.Lex.left _ _ (Cursor.size_lt_of_lt farther)

theorem spares_readKeyedValue
    {allowed : Bool}
    {first : Expression}
    {modes : ModeStack}
    {stream : TokenStream}
    (proper : modes.frames ≠ []) :
    Ending.Spares modes (readKeyedValue allowed first modes stream) := by
  rw [readKeyedValue]
  split
  · refine spares_eat.andThen ?_
    intro keyed next reached
    split
    · exact (spares_readExpression proper).map.weaken
    · exact .success
  · exact .success
termination_by (stream.cursor.size, 4)
decreasing_by
  rcases Nat.lt_or_eq_of_le (Cursor.size_le_of_le reached) with less | same
  · exact Prod.Lex.left _ _ less
  · rw [same]
    exact Prod.Lex.right _ (by decide)

theorem spares_readArguments
    {modes : ModeStack}
    {stream : TokenStream}
    (proper : modes.frames ≠ []) :
    Ending.Spares modes (readArguments modes stream) := by
  rw [readArguments]
  exact (spares_readEntries proper).map
termination_by (stream.cursor.size, 5)
decreasing_by exact Prod.Lex.right _ (by decide)

theorem spares_readMember
    {modes : ModeStack}
    {stream : TokenStream}
    (proper : modes.frames ≠ []) :
    Ending.Spares modes (readMember modes stream) := by
  rw [readMember]
  refine spares_expectMemberName.andThen ?_
  intro name next passed
  refine .onLook ?_
  intro lexeme span here behind still reached farther
  dsimp only
  split
  · rename_i found
    have passed : stream.cursor < behind.cursor :=
      Cursor.lt_trans passed (farther (by simp [found]))
    exact (spares_readArguments proper).map.weaken
  · exact .success
termination_by (stream.cursor.size, 6)
decreasing_by exact Prod.Lex.left _ _ (Cursor.size_lt_of_lt passed)

theorem spares_continueOperand
    {start : Cursor}
    {base : Expression}
    {modes : ModeStack}
    {stream : TokenStream}
    (proper : modes.frames ≠ []) :
    Ending.Spares modes (continueOperand start base modes stream) := by
  rw [continueOperand]
  refine .onLook ?_
  intro lexeme span here behind still reached passed
  have goOn
      {accessed : StreamOutcome (stream.cursor < ·) (ExpressionForm Expression)}
      (spares : Ending.Spares modes accessed) :
      Ending.Spares modes (accessed.andThen fun form modes next passed =>
        (continueOperand start ⟨form, start.spanTo next.cursor⟩ modes next).weaken
          fun _ reached => (Cursor.le_trans (Cursor.le_of_lt passed) reached :
            stream.cursor ≤ _)) := by
    refine spares.andThen ?_
    intro form next passed
    exact (spares_continueOperand proper).weaken
  dsimp only
  split
  · have passed : stream.cursor < behind.cursor := passed (by simp)
    exact goOn (spares_readMember proper).map.weaken
  · have passed : stream.cursor < behind.cursor := passed (by simp)
    exact goOn (spares_readMember proper).map.weaken
  · have passed : stream.cursor < behind.cursor := passed (by simp)
    exact goOn ((spares_readExpressionUnless proper).andThen
      fun _ _ _ => spares_expect.map.weaken)
  · have passed : stream.cursor < behind.cursor := passed (by simp)
    split
    · exact goOn (spares_readArguments proper).map.weaken
    · exact .success
  · have passed : stream.cursor < behind.cursor := passed (by simp)
    split
    · exact goOn (spares_readMember proper).map.weaken
    · exact .success
  · exact .success
termination_by (stream.cursor.size, 0)
decreasing_by
  all_goals exact Prod.Lex.left _ _ (Cursor.size_lt_of_lt passed)

end

/-! ## Modes for several texts -/

variable {α : Type} {P : Cursor → Prop}

/-- The modes that an outcome leaves. -/
def Outcome.modes : Outcome P α → ModeStack
  | .success _ modes _ _ => modes
  | .failure _ modes => modes

/--
What an outcome leaves of the modes `before`: all of it behind a success, and behind a failure the
charge for host expressions and every mode that was there, with those above that are abandoned.
-/
def Outcome.Survives (before : ModeStack) : Outcome P α → Prop
  | .success _ after _ _ => after = before
  | .failure _ after => after.expressions = before.expressions ∧ before.frames <:+ after.frames

/-- What modes may be used for: a charge is taken or given back, or something is read. -/
inductive ModeUse where
  | enterExpression (position : Position)
  | exitExpression
  | readElement (start : Cursor)
  | readExpression (start : Cursor)

/-- The modes that a use leaves, also if it fails. -/
def ModeUse.perform : ModeUse → ModeStack → ModeStack
  | .enterExpression position, modes => ModeStack.leftBy (modes.enterExpression position)
  | .exitExpression, modes => modes.exitExpression
  | .readElement start, modes => (EmbeddedMarkup.readElement hostDelegate modes start).modes
  | .readExpression start, modes => (hostDelegate modes start).modes

theorem Ending.Spares.survives
    {before : ModeStack}
    {outcome : Outcome P α}
    (spares : Ending.Spares before outcome) :
    outcome.Survives before := by
  cases spares with
  | success => rfl
  | failure abandoned => exact ⟨abandoned.expressions_eq, abandoned.frames⟩

theorem spares_hostDelegate
    {modes : ModeStack}
    {start : Cursor}
    (proper : modes.frames ≠ []) :
    Ending.Spares modes (hostDelegate modes start) :=
  (spares_readExpression proper).toOutcome.weaken

theorem spares_readElement
    {modes : ModeStack}
    {start : Cursor}
    (proper : modes.frames ≠ []) :
    Ending.Spares modes (readElement hostDelegate modes start) :=
  spares_readElementBehind (fun _ _ _ => spares_hostDelegate) proper

namespace ModeStack

variable {budget : Nat} {stack : ModeStack}

/-- The modes after one use for each entry of a list. -/
def afterUses (stack : ModeStack) (uses : List ModeUse) : ModeStack :=
  uses.foldl (fun stack use => use.perform stack) stack

/-- What a reader leaves of modes that are kept is kept. -/
theorem Kept.of_spares
    {outcome : Outcome P α}
    (kept : stack.Kept budget)
    (spares : Ending.Spares stack outcome) :
    outcome.modes.Kept budget := by
  cases spares with
  | success => exact kept
  | failure abandoned => exact abandoned.kept budget kept

/-- Every use keeps modes that are kept. -/
theorem Kept.use (kept : stack.Kept budget) (use : ModeUse) : (use.perform stack).Kept budget := by
  have proper := kept.nested.ne_nil
  cases use with
  | enterExpression position => exact kept.leftBy kept.enterExpression
  | exitExpression => exact kept.exitExpression
  | readElement start => exact kept.of_spares (spares_readElement proper)
  | readExpression start => exact kept.of_spares (spares_hostDelegate proper)

/-- A run of uses keeps modes that are kept. -/
theorem Kept.afterUses (kept : stack.Kept budget) (uses : List ModeUse) :
    (stack.afterUses uses).Kept budget := by
  induction uses generalizing stack with
  | nil => exact kept
  | cons use uses ih => exact ih (kept.use use)

/--
Modes that were used in any way, for any texts and with any failures, are charged within their
budget.  Whatever is read next, an element or an expression, leaves the modes as they are if it is
read, and gives back what it charged and takes off no mode if it is not.
-/
theorem survives_afterUses (budget : Nat) (uses : List ModeUse) :
    ((initial budget).afterUses uses).nesting ≤ budget ∧
      ∀ start,
        (readElement hostDelegate ((initial budget).afterUses uses) start).Survives
          ((initial budget).afterUses uses) ∧
        (hostDelegate ((initial budget).afterUses uses) start).Survives
          ((initial budget).afterUses uses) := by
  have kept := (kept_initial budget).afterUses uses
  have proper := kept.nested.ne_nil
  exact ⟨kept.nesting_le, fun start =>
    ⟨(spares_readElement proper).survives, (spares_hostDelegate proper).survives⟩⟩

end ModeStack

/-- A tag without a name is abandoned in its header. -/
example : (readElement hostDelegate (.initial 1) (.ofText "<")).modes =
    ⟨[.tagHeader 1, .hostCode], 0, 1⟩ := by
  rw [readElement, readElementBehind]
  rfl

end EmbeddedMarkup
