import EmbeddedMarkup.Proofs.Markup.Tracking
import EmbeddedMarkup.Proofs.Reading.Single

/-!
# Two runs of the readers of host expressions

The readers of host expressions track themselves, and so does the reader of elements with host
expressions in its holes.  An expression takes a level and at least one character; its operand is
read in what is left, so a level for each character is enough for the expression and strictly less
for the operand.
-/

namespace EmbeddedMarkup

open TokenStream StreamOutcome

section Tokens

variable
  {shift : Shift}
  {budget : Nat}
  {modes : ModeStack}
  {stream stream' : TokenStream}

/-- Readers that put moved tokens to the same use track one another. -/
theorem TokenStream.ReadsOne.tracks
    {α : Type}
    {f : α → α}
    {P P' : Cursor → Prop}
    {use : Token → TokenUse α}
    {outcome : StreamOutcome P α}
    {outcome' : StreamOutcome P' α}
    (reads : stream.ReadsOne modes use outcome)
    (reads' : stream'.ReadsOne (modes.withBudget budget) use outcome')
    (aligned : stream'.cursor = shift.cursor stream.cursor)
    (same : ∀ lexeme span, TokenUse.Rel (fun value value' => value' = f value)
      (use ⟨lexeme, span⟩) (use ⟨lexeme, shift.span span⟩)) :
    Ending.Tracks shift budget False f modes outcome outcome' := by
  obtain ⟨leads, rfl⟩ := reads
  obtain ⟨leads', rfl⟩ := reads'
  refine tracks_onLook aligned ?_
  intro lexeme span here behind here' behind' still reached passed still' reached' passed'
    alignedHere alignedBehind
  have used := same lexeme span
  generalize leads ⟨⟨lexeme, span⟩, here, behind, still, reached, passed⟩ = led
  generalize leads' ⟨⟨lexeme, shift.span span⟩, here', behind', still', reached', passed'⟩ = led'
  dsimp only at led led' ⊢
  generalize use ⟨lexeme, span⟩ = first at used led
  generalize use ⟨lexeme, shift.span span⟩ = second at used led'
  cases used with
  | take related => exact .success related alignedBehind
  | leave related => exact .success related alignedHere
  | refuse => exact .grammar rfl

theorem tracks_expect {kind : Symbol} (aligned : stream'.cursor = shift.cursor stream.cursor) :
    Ending.Tracks shift budget False id modes (stream.expect kind modes)
      (stream'.expect kind (modes.withBudget budget)) :=
  readsOne_expect.tracks readsOne_expect aligned fun _ _ => .refl (by simp) _

theorem tracks_eat {kind : Symbol} (aligned : stream'.cursor = shift.cursor stream.cursor) :
    Ending.Tracks shift budget False id modes (stream.eat kind modes)
      (stream'.eat kind (modes.withBudget budget)) :=
  readsOne_eat.tracks readsOne_eat aligned fun _ _ => .refl (by simp) _

theorem tracks_eatIdentifier (aligned : stream'.cursor = shift.cursor stream.cursor) :
    Ending.Tracks shift budget False id modes (stream.eatIdentifier modes)
      (stream'.eatIdentifier (modes.withBudget budget)) :=
  readsOne_eatIdentifier.tracks readsOne_eatIdentifier aligned fun _ _ => .refl (by simp) _

theorem tracks_expectVariable (aligned : stream'.cursor = shift.cursor stream.cursor) :
    Ending.Tracks shift budget False (Parameter.respan shift.span) modes
      (stream.expectVariable modes) (stream'.expectVariable (modes.withBudget budget)) := by
  refine readsOne_expectVariable.tracks readsOne_expectVariable aligned fun lexeme span => ?_
  unfold TokenUse.parameter
  dsimp only
  split
  · exact .take rfl
  · exact .refuse

theorem tracks_expectMemberName (aligned : stream'.cursor = shift.cursor stream.cursor) :
    Ending.Tracks shift budget False id modes (stream.expectMemberName modes)
      (stream'.expectMemberName (modes.withBudget budget)) :=
  readsOne_expectMemberName.tracks readsOne_expectMemberName aligned fun _ _ =>
    .refl (by simp) _

theorem tracks_readParameters (aligned : stream'.cursor = shift.cursor stream.cursor) :
    Ending.Tracks shift budget False (List.map (Parameter.respan shift.span)) modes
      (stream.readParameters modes) (stream'.readParameters (modes.withBudget budget)) := by
  induction size : stream.cursor.size using Nat.strongRecOn generalizing stream stream' with
  | ind size shorter =>
      subst size
      rw [readParameters, readParameters]
      refine tracks_onLook aligned ?_
      intro lexeme span here behind here' behind' still _ _ _ _ _ alignedHere alignedBehind
      dsimp only
      split
      · exact .success rfl alignedBehind
      · refine (tracks_eat alignedHere).andThen rfl ?_
        intro _ typed typed' reached _ aligned
        refine (tracks_eatIdentifier aligned).andThen rfl ?_
        intro _ named named' reached' _ aligned
        refine (tracks_expectVariable aligned).andThen rfl ?_
        intro parameter listed listed' passed _ aligned
        refine (tracks_eat aligned).andThen rfl ?_
        intro more next next' reached'' _ aligned
        dsimp only [id]
        split
        · have passed : stream.cursor < next.cursor :=
            still ▸ Cursor.lt_of_le_of_lt reached
              (Cursor.lt_of_le_of_lt reached' (Cursor.lt_of_lt_of_le passed reached''))
          exact .weaken (.map (shorter _ (Cursor.size_lt_of_lt passed) aligned rfl) fun _ => rfl)
        · exact .weaken (.map (tracks_expect aligned) fun _ => rfl)

end Tokens

variable {shift : Shift} {budget : Nat}

mutual

theorem tracks_readExpression
    {power : Nat}
    {modes : ModeStack}
    {stream stream' : TokenStream}
    (proper : modes.frames ≠ [])
    (within : modes.budget ≤ budget)
    (aligned : stream'.cursor = shift.cursor stream.cursor) :
    Ending.Tracks shift budget (modes.levels ≤ stream.cursor.size)
      (Expression.respan shift.span) modes
      (readExpression power modes stream)
      (readExpression power (modes.withBudget budget) stream') := by
  rw [readExpression, readExpression]
  refine tracks_onNextStart aligned ?_
  intro start start' _ _ started
  have chargedProper : modes.charged.frames ≠ [] := proper
  have chargedWithin : modes.charged.budget ≤ budget := within
  have level := modes.levels_charged
  rcases Nat.eq_zero_or_pos modes.levels with none_left | enough
  · rw [ModeStack.enterExpression_eq_error none_left]
    rcases Nat.lt_or_eq_of_le within with less | rfl
    · exact .exceeded (by omega) less ⟨rfl, .inr rfl⟩
    · rw [ModeStack.withBudget_self, ModeStack.enterExpression_eq_error none_left, started]
      exact .failure fun different => absurd rfl different
  · have enough' := Nat.lt_of_lt_of_le enough (ModeStack.levels_withBudget within)
    rw [ModeStack.enterExpression_eq_ok.mpr ⟨enough, rfl⟩,
      ModeStack.enterExpression_eq_ok.mpr ⟨enough', rfl⟩]
    refine .exitExpression ?_
    refine ((tracks_readOperand chargedProper chargedWithin aligned).mono (by omega)).andThen rfl ?_
    intro left behind behind' passed _ aligned'
    have fewer := Cursor.size_lt_of_lt passed
    exact .weaken
      ((tracks_continueExpression chargedProper chargedWithin started aligned').mono (by omega))
termination_by (stream.cursor.size, 3)
decreasing_by
  · exact Prod.Lex.right _ (by decide)
  · exact Prod.Lex.left _ _ fewer

theorem tracks_continueExpression
    {start start' : Cursor}
    {power : Nat}
    {left : Expression}
    {modes : ModeStack}
    {stream stream' : TokenStream}
    (proper : modes.frames ≠ [])
    (within : modes.budget ≤ budget)
    (started : start' = shift.cursor start)
    (aligned : stream'.cursor = shift.cursor stream.cursor) :
    Ending.Tracks shift budget (modes.levels ≤ stream.cursor.size)
      (Expression.respan shift.span) modes
      (continueExpression start power left modes stream)
      (continueExpression start' power (left.respan shift.span) (modes.withBudget budget)
        stream') := by
  rw [continueExpression, continueExpression]
  refine tracks_onLook aligned ?_
  intro lexeme span here behind here' behind' _ _ passed _ _ _ alignedHere alignedBehind
  dsimp only
  split
  · exact .success rfl alignedHere
  · rename_i binding connects
    split
    · exact .success rfl alignedHere
    · have passed : stream.cursor < behind.cursor :=
        passed (Lexeme.ne_endOfInput_of_binding? connects)
      have fewer := Cursor.size_lt_of_lt passed
      refine ((tracks_readConnected proper within alignedBehind).mono (by omega)).andThen rfl ?_
      intro form next next' reached _ aligned'
      have farther := Cursor.size_lt_of_lt (Cursor.lt_trans passed reached)
      have whole : (⟨form.respan shift.span, start'.spanTo next'.cursor⟩ : Expression) =
          Expression.respan shift.span ⟨form, start.spanTo next.cursor⟩ := by
        rw [Expression.respan_mk, started, aligned', Shift.spanTo_cursor]
      rw [whole]
      exact .weaken ((tracks_continueExpression proper within started aligned').mono (by omega))
termination_by (stream.cursor.size, 0)
decreasing_by
  · exact Prod.Lex.left _ _ fewer
  · exact Prod.Lex.left _ _ farther

theorem tracks_readConnected
    {binding : Binding}
    {left : Expression}
    {modes : ModeStack}
    {stream stream' : TokenStream}
    (proper : modes.frames ≠ [])
    (within : modes.budget ≤ budget)
    (aligned : stream'.cursor = shift.cursor stream.cursor) :
    Ending.Tracks shift budget (modes.levels ≤ stream.cursor.size)
      (ExpressionForm.respan shift.span) modes
      (readConnected binding left modes stream)
      (readConnected binding (left.respan shift.span) (modes.withBudget budget) stream') := by
  rw [readConnected, readConnected]
  split
  · refine .map (tracks_readExpression proper within aligned) ?_
    intro operand
    rfl
  · rw [Expression.isAssignable_respan]
    split
    · refine .map (tracks_readExpression proper within aligned) ?_
      intro value
      rfl
    · refine .grammar ?_
      obtain ⟨form, span⟩ := left
      rw [Expression.respan_mk]
  · refine (tracks_readExpressionUnless proper within aligned).andThen rfl ?_
    intro ifTrue next next' reached _ aligned'
    refine ((tracks_expect aligned').mono False.elim).andThen rfl ?_
    intro _ behind behind' passed _ aligned''
    have fewer := Cursor.size_lt_of_lt (Cursor.lt_of_le_of_lt reached passed)
    refine .weaken (.map ((tracks_readExpression proper within aligned'').mono (by omega)) ?_)
    intro ifFalse
    rfl
termination_by (stream.cursor.size, 5)
decreasing_by
  · exact Prod.Lex.right _ (by decide)
  · exact Prod.Lex.right _ (by decide)
  · exact Prod.Lex.right _ (by decide)
  · exact Prod.Lex.left _ _ fewer

theorem tracks_readExpressionUnless
    {kind : Symbol}
    {modes : ModeStack}
    {stream stream' : TokenStream}
    (proper : modes.frames ≠ [])
    (within : modes.budget ≤ budget)
    (aligned : stream'.cursor = shift.cursor stream.cursor) :
    Ending.Tracks shift budget (modes.levels ≤ stream.cursor.size)
      (Option.map (Expression.respan shift.span)) modes
      (readExpressionUnless kind modes stream)
      (readExpressionUnless kind (modes.withBudget budget) stream') := by
  rw [readExpressionUnless, readExpressionUnless]
  refine tracks_onLook aligned ?_
  intro lexeme span here behind here' behind' still _ _ _ _ _ alignedHere _
  dsimp only
  split
  · exact .success rfl alignedHere
  · refine .weaken (.map ((tracks_readExpression proper within alignedHere).mono ?_) fun _ => rfl)
    rw [still]
    exact id
termination_by (stream.cursor.size, 4)
decreasing_by
  rw [still]
  exact Prod.Lex.right _ (by decide)

theorem tracks_readOperand
    {modes : ModeStack}
    {stream stream' : TokenStream}
    (proper : modes.frames ≠ [])
    (within : modes.budget ≤ budget)
    (aligned : stream'.cursor = shift.cursor stream.cursor) :
    Ending.Tracks shift budget (modes.levels < stream.cursor.size)
      (Expression.respan shift.span) modes
      (readOperand modes stream)
      (readOperand (modes.withBudget budget) stream') := by
  rw [readOperand, readOperand]
  refine tracks_onNextStart aligned ?_
  intro start start' reached _ started
  have fewer := Cursor.size_le_of_le reached
  have tag : startsMarkup start'.rest = startsMarkup start.rest := by
    rw [started, Shift.rest_cursor]
  rw [tag]
  split
  · have delegates : @DelegateBehind.Tracks start start' shift budget
        (fun modes inside _ =>
          (readExpression 0 modes (fresh stream.remembers inside)).toOutcome.weaken
            fun _ => Cursor.le_of_lt)
        (fun modes inside _ =>
          (readExpression 0 modes (fresh stream'.remembers inside)).toOutcome.weaken
            fun _ => Cursor.le_of_lt) := by
      intro modes inside inside' ahead _ proper within aligned
      have fewer := Cursor.size_lt_of_lt (Cursor.lt_of_le_of_lt reached ahead)
      exact .weaken (@tracks_readExpression 0 modes (fresh stream.remembers inside)
        (fresh stream'.remembers inside') proper within aligned).toOutcome
    have element := @tracks_readElementBehind _ _ _ _ _ _ delegates _ _ _ start.le_refl
      start'.le_refl proper within started
    generalize @readElementBehind Expression _ _ _ modes start _ = outcome at element ⊢
    generalize @readElementBehind Expression _ _ _ (modes.withBudget budget) start' _ = outcome'
      at element ⊢
    cases element with
    | success value aligned =>
        refine .success ?_ aligned
        rw [Expression.respan_mk, started, aligned, Shift.spanTo_cursor, value]
        rfl
    | failure own => exact .failure own
    | exceeded few less exceeds => exact .exceeded (by omega) less exceeds
  · refine tracks_onLook aligned ?_
    intro lexeme span here behind here' behind' still _ passed _ _ _ alignedHere alignedBehind
    dsimp only
    split
    · have fewer := Cursor.size_lt_of_lt (passed (by simp))
      refine ((tracks_readExpression proper within alignedBehind).mono (by omega)).andThen rfl ?_
      intro operand next next' _ _ aligned
      refine .success ?_ aligned
      rw [Expression.respan_mk, started, aligned, Shift.spanTo_cursor]
      rfl
    · have fewer := Cursor.size_lt_of_lt (passed (by simp))
      refine ((tracks_readExpression proper within alignedBehind).mono (by omega)).andThen rfl ?_
      intro operand next next' _ _ aligned
      refine .success ?_ aligned
      rw [Expression.respan_mk, started, aligned, Shift.spanTo_cursor]
      rfl
    · have unmoved := congrArg Cursor.size still
      refine ((tracks_readPrimary proper within alignedHere).mono (by omega)).andThen rfl ?_
      intro primary next next' passed _ aligned
      have fewer := Cursor.size_lt_of_lt passed
      exact .weaken ((tracks_continueOperand proper within started aligned).mono (by omega))
termination_by (stream.cursor.size, 2)
decreasing_by
  · exact Prod.Lex.left _ _ fewer
  · exact Prod.Lex.left _ _ fewer
  · rw [still]
    exact Prod.Lex.right _ (by decide)
  · exact Prod.Lex.left _ _ (still ▸ fewer)
  · exact Prod.Lex.left _ _ fewer

theorem tracks_readPrimary
    {modes : ModeStack}
    {stream stream' : TokenStream}
    (proper : modes.frames ≠ [])
    (within : modes.budget ≤ budget)
    (aligned : stream'.cursor = shift.cursor stream.cursor) :
    Ending.Tracks shift budget (modes.levels < stream.cursor.size)
      (Expression.respan shift.span) modes
      (readPrimary modes stream)
      (readPrimary (modes.withBudget budget) stream') := by
  rw [readPrimary, readPrimary]
  refine tracks_onNextStart aligned ?_
  intro start start' reached _ started
  refine tracks_onLook aligned ?_
  intro lexeme span here behind here' behind' still _ passed _ _ _ alignedHere alignedBehind
  have leaf (form : ExpressionForm Expression) (same : form.respan shift.span = form) :
      (⟨form, start'.spanTo behind'.cursor⟩ : Expression) =
        Expression.respan shift.span ⟨form, start.spanTo behind.cursor⟩ := by
    rw [Expression.respan_mk, same, started, alignedBehind, Shift.spanTo_cursor]
  dsimp only
  split
  · exact .success (leaf _ rfl) alignedBehind
  · exact .success (leaf _ rfl) alignedBehind
  · exact .success (leaf _ rfl) alignedBehind
  · exact .success (leaf _ rfl) alignedBehind
  · have passed : stream.cursor < behind.cursor := passed (by simp)
    split
    · refine tracks_onLook alignedBehind ?_
      intro lexeme span here behind here' behind' still _ passed' _ _ _ alignedHere alignedBehind
      dsimp only
      split
      · rename_i opened
        have fewer := Cursor.size_lt_of_lt (Cursor.lt_trans passed (passed' (by simp [opened])))
        refine ((tracks_readEntries proper within alignedBehind).mono (by omega)).andThen rfl ?_
        intro items stop stop' _ _ aligned
        refine .success ?_ aligned
        rw [Expression.respan_mk, started, aligned, Shift.spanTo_cursor,
          ExpressionForm.respan_array]
      · refine .success ?_ alignedHere
        rw [Expression.respan_mk, started, alignedHere, Shift.spanTo_cursor]
        rfl
    · exact .success (leaf _ rfl) alignedBehind
  · have fewer := Cursor.size_lt_of_lt (passed (by simp))
    refine ((tracks_readEntries proper within alignedBehind).mono (by omega)).andThen rfl ?_
    intro items stop stop' _ _ aligned
    refine .success ?_ aligned
    rw [Expression.respan_mk, started, aligned, Shift.spanTo_cursor, ExpressionForm.respan_array]
  · have fewer := Cursor.size_lt_of_lt (passed (by simp))
    refine ((tracks_readArrowFunction proper within alignedBehind).mono (by omega)).andThen rfl ?_
    intro form stop stop' _ _ aligned
    refine .success ?_ aligned
    rw [Expression.respan_mk, started, aligned, Shift.spanTo_cursor]
  · have fewer := Cursor.size_lt_of_lt (passed (by simp))
    refine ((tracks_readExpression proper within alignedBehind).mono (by omega)).andThen rfl ?_
    intro inner next next' _ _ aligned
    exact .weaken (.map ((tracks_expect aligned).mono False.elim) fun _ => rfl)
  · exact .grammar rfl
termination_by (stream.cursor.size, 1)
decreasing_by
  all_goals exact Prod.Lex.left _ _ fewer

theorem tracks_readArrowFunction
    {modes : ModeStack}
    {stream stream' : TokenStream}
    (proper : modes.frames ≠ [])
    (within : modes.budget ≤ budget)
    (aligned : stream'.cursor = shift.cursor stream.cursor) :
    Ending.Tracks shift budget (modes.levels ≤ stream.cursor.size)
      (ExpressionForm.respan shift.span) modes
      (readArrowFunction modes stream)
      (readArrowFunction (modes.withBudget budget) stream') := by
  rw [readArrowFunction, readArrowFunction]
  refine ((tracks_expect aligned).mono False.elim).andThen rfl ?_
  intro _ opened opened' passed _ aligned
  refine ((tracks_readParameters aligned).mono False.elim).andThen rfl ?_
  intro parameters closed closed' passed' _ aligned
  refine ((tracks_expect aligned).mono False.elim).andThen rfl ?_
  intro _ body body' passed'' _ aligned
  have fewer := Cursor.size_lt_of_lt (Cursor.lt_trans passed (Cursor.lt_trans passed' passed''))
  exact .weaken (.map ((tracks_readExpression proper within aligned).mono (by omega))
    fun _ => rfl)
termination_by (stream.cursor.size, 4)
decreasing_by exact Prod.Lex.left _ _ fewer

theorem tracks_readEntries
    {close : Symbol}
    {keyed : Bool}
    {modes : ModeStack}
    {stream stream' : TokenStream}
    (proper : modes.frames ≠ [])
    (within : modes.budget ≤ budget)
    (aligned : stream'.cursor = shift.cursor stream.cursor) :
    Ending.Tracks shift budget (modes.levels ≤ stream.cursor.size)
      (List.map (ArrayItem.respan shift.span)) modes
      (readEntries close keyed modes stream)
      (readEntries close keyed (modes.withBudget budget) stream') := by
  rw [readEntries, readEntries]
  refine tracks_onLook aligned ?_
  intro lexeme span here behind here' behind' still _ _ _ _ _ alignedHere alignedBehind
  dsimp only
  split
  · exact .success rfl alignedBehind
  · refine tracks_onNextStart alignedHere ?_
    intro start start' _ _ started
    refine ((tracks_eat alignedHere).mono False.elim).andThen rfl ?_
    intro unpack first first' reached _ aligned
    have reached : stream.cursor ≤ first.cursor := still ▸ reached
    have notMore := Cursor.size_le_of_le reached
    refine ((tracks_readExpression proper within aligned).mono (by omega)).andThen rfl ?_
    intro value next next' passed _ aligned
    have fewer := Cursor.size_lt_of_lt (Cursor.lt_of_le_of_lt reached passed)
    refine ((tracks_readKeyedValue proper within aligned).mono (by omega)).andThen rfl ?_
    intro pair pairEnd pairEnd' reached' _ aligned
    have item : (⟨pair.1.map (Expression.respan shift.span), pair.2.respan shift.span, unpack,
        start'.spanTo pairEnd'.cursor⟩ : ArrayItem Expression) =
          ArrayItem.respan shift.span ⟨pair.1, pair.2, unpack, start.spanTo pairEnd.cursor⟩ := by
      rw [ArrayItem.respan_mk, started, aligned, Shift.spanTo_cursor]
    refine ((tracks_eat aligned).mono False.elim).andThen rfl ?_
    intro more rest rest' reached'' _ aligned
    have farther := Cursor.size_lt_of_lt (Cursor.lt_of_lt_of_le
      (Cursor.lt_of_le_of_lt reached passed) (Cursor.le_trans reached' reached''))
    dsimp only [id, Prod.map]
    rw [item]
    split
    · exact .weaken (.map ((tracks_readEntries proper within aligned).mono (by omega))
        fun _ => rfl)
    · exact .weaken (.map ((tracks_expect aligned).mono False.elim) fun _ => rfl)
termination_by (stream.cursor.size, 4)
decreasing_by
  · rcases Nat.lt_or_eq_of_le notMore with less | same
    · exact Prod.Lex.left _ _ less
    · rw [same]
      exact Prod.Lex.right _ (by decide)
  · exact Prod.Lex.left _ _ fewer
  · exact Prod.Lex.left _ _ farther

theorem tracks_readKeyedValue
    {allowed : Bool}
    {first : Expression}
    {modes : ModeStack}
    {stream stream' : TokenStream}
    (proper : modes.frames ≠ [])
    (within : modes.budget ≤ budget)
    (aligned : stream'.cursor = shift.cursor stream.cursor) :
    Ending.Tracks shift budget (modes.levels ≤ stream.cursor.size)
      (Prod.map (Option.map (Expression.respan shift.span)) (Expression.respan shift.span)) modes
      (readKeyedValue allowed first modes stream)
      (readKeyedValue allowed (first.respan shift.span) (modes.withBudget budget) stream') := by
  rw [readKeyedValue, readKeyedValue]
  split
  · refine ((tracks_eat aligned).mono False.elim).andThen rfl ?_
    intro keyed next next' reached _ aligned
    have fewer := Cursor.size_le_of_le reached
    dsimp only [id]
    split
    · exact .weaken (.map ((tracks_readExpression proper within aligned).mono (by omega))
        fun _ => rfl)
    · exact .success rfl aligned
  · exact .success rfl aligned
termination_by (stream.cursor.size, 4)
decreasing_by
  rcases Nat.lt_or_eq_of_le fewer with less | same
  · exact Prod.Lex.left _ _ less
  · rw [same]
    exact Prod.Lex.right _ (by decide)

theorem tracks_readArguments
    {modes : ModeStack}
    {stream stream' : TokenStream}
    (proper : modes.frames ≠ [])
    (within : modes.budget ≤ budget)
    (aligned : stream'.cursor = shift.cursor stream.cursor) :
    Ending.Tracks shift budget (modes.levels ≤ stream.cursor.size)
      (List.map (Argument.respan shift.span)) modes
      (readArguments modes stream)
      (readArguments (modes.withBudget budget) stream') := by
  rw [readArguments, readArguments]
  refine .map (tracks_readEntries proper within aligned) ?_
  intro items
  simp only [List.map_map]
  rfl
termination_by (stream.cursor.size, 5)
decreasing_by exact Prod.Lex.right _ (by decide)

theorem tracks_readMember
    {modes : ModeStack}
    {stream stream' : TokenStream}
    (proper : modes.frames ≠ [])
    (within : modes.budget ≤ budget)
    (aligned : stream'.cursor = shift.cursor stream.cursor) :
    Ending.Tracks shift budget (modes.levels ≤ stream.cursor.size)
      (Prod.map id (Option.map (List.map (Argument.respan shift.span)))) modes
      (readMember modes stream)
      (readMember (modes.withBudget budget) stream') := by
  rw [readMember, readMember]
  refine ((tracks_expectMemberName aligned).mono False.elim).andThen rfl ?_
  intro name next next' passed _ aligned
  refine tracks_onLook aligned ?_
  intro lexeme span here behind here' behind' still _ farther _ _ _ alignedHere alignedBehind
  dsimp only
  split
  · rename_i found
    have fewer := Cursor.size_lt_of_lt (Cursor.lt_trans passed (farther (by simp [found])))
    exact .weaken (.map ((tracks_readArguments proper within alignedBehind).mono (by omega))
      fun _ => rfl)
  · exact .success rfl alignedHere
termination_by (stream.cursor.size, 6)
decreasing_by exact Prod.Lex.left _ _ fewer

theorem tracks_continueOperand
    {start start' : Cursor}
    {base : Expression}
    {modes : ModeStack}
    {stream stream' : TokenStream}
    (proper : modes.frames ≠ [])
    (within : modes.budget ≤ budget)
    (started : start' = shift.cursor start)
    (aligned : stream'.cursor = shift.cursor stream.cursor) :
    Ending.Tracks shift budget (modes.levels ≤ stream.cursor.size)
      (Expression.respan shift.span) modes
      (continueOperand start base modes stream)
      (continueOperand start' (base.respan shift.span) (modes.withBudget budget) stream') := by
  rw [continueOperand, continueOperand]
  refine tracks_onLook aligned ?_
  intro lexeme span here behind here' behind' _ _ passed _ _ _ alignedHere alignedBehind
  have goOn
      {accessed : StreamOutcome (stream.cursor < ·) (ExpressionForm Expression)}
      {accessed' : StreamOutcome (stream'.cursor < ·) (ExpressionForm Expression)}
      (tracks : Ending.Tracks shift budget (modes.levels ≤ stream.cursor.size)
        (ExpressionForm.respan shift.span) modes accessed accessed') :
      Ending.Tracks shift budget (modes.levels ≤ stream.cursor.size)
        (Expression.respan shift.span) modes
        (accessed.andThen fun form modes next passed =>
          (continueOperand start ⟨form, start.spanTo next.cursor⟩ modes next).weaken
            fun _ reached => Cursor.le_trans (Cursor.le_of_lt passed) reached)
        (accessed'.andThen fun form modes next passed =>
          (continueOperand start' ⟨form, start'.spanTo next.cursor⟩ modes next).weaken
            fun _ reached => Cursor.le_trans (Cursor.le_of_lt passed) reached) := by
    refine tracks.andThen rfl ?_
    intro form next next' farther _ aligned
    have fewer := Cursor.size_lt_of_lt farther
    have whole : (⟨form.respan shift.span, start'.spanTo next'.cursor⟩ : Expression) =
        Expression.respan shift.span ⟨form, start.spanTo next.cursor⟩ := by
      rw [Expression.respan_mk, started, aligned, Shift.spanTo_cursor]
    rw [whole]
    exact .weaken ((tracks_continueOperand proper within started aligned).mono (by omega))
  have done := Expression.respan_nameAsConstant shift.span base
  dsimp only
  split
  · have fewer := Cursor.size_lt_of_lt (passed (by simp))
    refine goOn (.weaken (.map ((tracks_readMember proper within alignedBehind).mono
      (by omega)) ?_))
    rintro ⟨name, arguments⟩
    symm
    exact ExpressionForm.respan_memberForm _ _ _ _ _
  · have fewer := Cursor.size_lt_of_lt (passed (by simp))
    refine goOn (.weaken (.map ((tracks_readMember proper within alignedBehind).mono
      (by omega)) ?_))
    rintro ⟨name, arguments⟩
    symm
    exact ExpressionForm.respan_memberForm _ _ _ _ _
  · have fewer := Cursor.size_lt_of_lt (passed (by simp))
    refine goOn (Ending.Tracks.andThen
      ((tracks_readExpressionUnless proper within alignedBehind).mono (by omega)) rfl ?_)
    intro index next next' _ _ aligned
    exact .weaken (.map ((tracks_expect aligned).mono False.elim) fun _ => rfl)
  · have fewer := Cursor.size_lt_of_lt (passed (by simp))
    rw [Expression.isCallable_respan]
    split
    · refine goOn (.weaken (.map ((tracks_readArguments proper within alignedBehind).mono
        (by omega)) ?_))
      intro arguments
      symm
      exact ExpressionForm.respan_call _ _ _
    · exact .success done.symm alignedHere
  · have fewer := Cursor.size_lt_of_lt (passed (by simp))
    rw [Expression.isName_respan]
    split
    · refine goOn (.weaken (.map ((tracks_readMember proper within alignedBehind).mono
        (by omega)) ?_))
      rintro ⟨name, arguments⟩
      symm
      exact ExpressionForm.respan_staticMemberForm _ _ _ _
    · exact .success done.symm alignedHere
  · exact .success done.symm alignedHere
termination_by (stream.cursor.size, 0)
decreasing_by
  all_goals exact Prod.Lex.left _ _ fewer

end

end EmbeddedMarkup
