import EmbeddedMarkup.Proofs.Markup.Following
import EmbeddedMarkup.Proofs.Reading.Single

/-!
# The readers of host expressions in two renderings

The readers of host expressions follow themselves, and so does the reader of elements with host
expressions in its holes.  They tell lexemes apart by all but the values of strings, and these are
all that two renderings may have in another way.
-/

namespace EmbeddedMarkup

open TokenStream

variable {r : Rendering}

instance : ConstantsFollow r (Expression.Follows r) where
  trueAt _ := Expression.follows_mk rfl
  nullAt _ := Expression.follows_mk rfl
  textAt _ same := Expression.follows_mk (ExpressionForm.follows_string same)

/-- The second pair of a key and a value follows the first one. -/
structure KeyedValue.Follows
    (r : Rendering)
    (pair pair' : Option Expression × Expression) : Prop where
  key : Option.Rel (Expression.Follows r) pair.1 pair'.1
  value : pair.2.Follows r pair'.2

/-- The second member follows the first one, as do the arguments that it is called with. -/
structure Member.Follows
    (r : Rendering)
    (member member' : String × Option (List (Argument Expression))) : Prop where
  name : member'.1 = member.1
  arguments : Option.Rel (List.Forall₂ (Argument.Follows r)) member.2 member'.2

/-- An item without a key is the same argument. -/
theorem ArrayItem.Follows.toArgument
    {item item' : ArrayItem Expression}
    (follows : item.Follows r item') :
    item.toArgument.Follows r item'.toArgument :=
  congrArg ArrayItem.toArgument follows

section Tokens

variable {modes : ModeStack} {stream stream' : TokenStream}

/-- Readers that put tokens that follow one another to the same use follow one another. -/
theorem TokenStream.ReadsOne.follows
    {α α' : Type}
    {R : α → α' → Prop}
    {P P' : Cursor → Prop}
    {use : Token → TokenUse α}
    {use' : Token → TokenUse α'}
    {outcome : StreamOutcome P α}
    {outcome' : StreamOutcome P' α'}
    (reads : stream.ReadsOne modes use outcome)
    (reads' : stream'.ReadsOne modes use' outcome')
    (aligned : r.Aligned stream.cursor stream'.cursor)
    (same : ∀ lexeme lexeme' span, Lexeme.Follows r.ends lexeme lexeme' →
      TokenUse.Rel R (use ⟨lexeme, span⟩) (use' ⟨lexeme', r.span span⟩)) :
    Ending.Follows r R outcome outcome' := by
  obtain ⟨leads, rfl⟩ := reads
  obtain ⟨leads', rfl⟩ := reads'
  refine follows_onLook aligned ?_
  intro lexeme lexeme' span here behind here' behind' still reached passed still' reached' passed'
    follows alignedHere alignedBehind
  have used := same lexeme lexeme' span follows
  generalize leads ⟨⟨lexeme, span⟩, here, behind, still, reached, passed⟩ = led
  generalize leads' ⟨⟨lexeme', r.span span⟩, here', behind', still', reached', passed'⟩ = led'
  dsimp only at led led' ⊢
  generalize use ⟨lexeme, span⟩ = first at used led
  generalize use' ⟨lexeme', r.span span⟩ = second at used led'
  cases used with
  | take related => exact .success related alignedBehind
  | leave related => exact .success related alignedHere
  | refuse => exact .failure ⟨.expected follows, r.position_span _⟩

theorem follows_expect {kind : Symbol} (aligned : r.Aligned stream.cursor stream'.cursor) :
    Ending.Follows r Eq (stream.expect kind modes) (stream'.expect kind modes) := by
  refine readsOne_expect.follows readsOne_expect aligned fun lexeme lexeme' span follows => ?_
  cases follows <;> exact .refl (fun _ => rfl) _

theorem follows_eat {kind : Symbol} (aligned : r.Aligned stream.cursor stream'.cursor) :
    Ending.Follows r Eq (stream.eat kind modes) (stream'.eat kind modes) := by
  refine readsOne_eat.follows readsOne_eat aligned fun lexeme lexeme' span follows => ?_
  cases follows <;> exact .refl (fun _ => rfl) _

theorem follows_eatIdentifier (aligned : r.Aligned stream.cursor stream'.cursor) :
    Ending.Follows r Eq (stream.eatIdentifier modes) (stream'.eatIdentifier modes) := by
  refine readsOne_eatIdentifier.follows readsOne_eatIdentifier aligned
    fun lexeme lexeme' span follows => ?_
  cases follows <;> exact .refl (fun _ => rfl) _

theorem follows_expectVariable (aligned : r.Aligned stream.cursor stream'.cursor) :
    Ending.Follows r (Parameter.Follows r) (stream.expectVariable modes)
      (stream'.expectVariable modes) := by
  refine readsOne_expectVariable.follows readsOne_expectVariable aligned
    fun lexeme lexeme' span follows => ?_
  cases follows with
  | string same => exact .refuse
  | same lexeme =>
      unfold TokenUse.parameter
      dsimp only
      split
      · exact .take rfl
      · exact .refuse

theorem follows_expectMemberName (aligned : r.Aligned stream.cursor stream'.cursor) :
    Ending.Follows r Eq (stream.expectMemberName modes)
      (stream'.expectMemberName modes) := by
  refine readsOne_expectMemberName.follows readsOne_expectMemberName aligned
    fun lexeme lexeme' span follows => ?_
  cases follows <;> exact .refl (fun _ => rfl) _

theorem follows_readParameters (aligned : r.Aligned stream.cursor stream'.cursor) :
    Ending.Follows r (List.Forall₂ (Parameter.Follows r)) (stream.readParameters modes)
      (stream'.readParameters modes) := by
  induction size : stream.cursor.size using Nat.strongRecOn
    generalizing stream stream' modes with
  | ind size shorter =>
      subst size
      rw [readParameters, readParameters]
      refine follows_onLook aligned ?_
      intro lexeme lexeme' span here behind here' behind' still _ _ _ _ _ follows alignedHere
        alignedBehind
      dsimp only
      split <;> rename_i found
      · rw [dif_pos (follows.symbol_iff.mpr found)]
        exact .success .nil alignedBehind
      · rw [dif_neg fun found' => found (follows.symbol_iff.mp found')]
        refine (follows_eat alignedHere).andThen ?_
        intro _ _ _ typed typed' reached _ _ aligned
        refine (follows_eatIdentifier aligned).andThen ?_
        intro _ _ _ named named' reached' _ _ aligned
        refine (follows_expectVariable aligned).andThen ?_
        intro parameter parameter' _ listed listed' passed _ first aligned
        refine (follows_eat aligned).andThen ?_
        intro more _ _ next next' reached'' _ same aligned
        subst same
        split
        · have passed : stream.cursor < next.cursor :=
            still ▸ Cursor.lt_of_le_of_lt reached
              (Cursor.lt_of_le_of_lt reached' (Cursor.lt_of_lt_of_le passed reached''))
          exact ((shorter _ (Cursor.size_lt_of_lt passed) aligned rfl).map fun _ _ others =>
            .cons first others).weaken
        · exact ((follows_expect aligned).map fun _ _ _ => .cons first .nil).weaken

end Tokens

mutual

theorem follows_readExpression
    {power : Nat}
    {modes : ModeStack}
    {stream stream' : TokenStream}
    (aligned : r.Aligned stream.cursor stream'.cursor) :
    Ending.Follows r (Expression.Follows r) (readExpression power modes stream)
      (readExpression power modes stream') := by
  rw [readExpression, readExpression]
  refine follows_onNextStart aligned ?_
  intro start start' _ _ started
  rcases ModeStack.isPlaced_enterExpression modes with ⟨_, after, entered⟩ | ⟨cause, after, refused⟩
  · rw [entered, entered]
    refine Ending.Follows.mapModes ?_
    refine (follows_readOperand aligned).andThen ?_
    intro left left' modes behind behind' passed _ same aligned'
    exact (follows_continueExpression started same aligned').weaken
  · rw [refused, refused]
    exact .failure (Fault.follows_of_place (r.position_eq started))
termination_by (stream.cursor.size, 3)
decreasing_by
  · exact Prod.Lex.right _ (by decide)
  · exact Prod.Lex.left _ _ (Cursor.size_lt_of_lt passed)

theorem follows_continueExpression
    {start start' : Cursor}
    {power : Nat}
    {left left' : Expression}
    {modes : ModeStack}
    {stream stream' : TokenStream}
    (started : r.Aligned start start')
    (same : left.Follows r left')
    (aligned : r.Aligned stream.cursor stream'.cursor) :
    Ending.Follows r (Expression.Follows r)
      (continueExpression start power left modes stream)
      (continueExpression start' power left' modes stream') := by
  rw [continueExpression, continueExpression]
  refine follows_onLook aligned ?_
  intro lexeme lexeme' span here behind here' behind' _ _ passed _ _ _ follows alignedHere
    alignedBehind
  cases follows with
  | string => exact .success same alignedHere
  | same lexeme =>
      dsimp only
      split
      · exact .success same alignedHere
      · rename_i binding connects
        split
        · exact .success same alignedHere
        · have passed : stream.cursor < behind.cursor :=
            passed (Lexeme.ne_endOfInput_of_binding? connects)
          refine (follows_readConnected same alignedBehind).andThen ?_
          intro form form' modes next next' reached _ connected aligned'
          have farther := Cursor.lt_trans passed reached
          rw [Rendering.spanTo_eq started aligned']
          exact (follows_continueExpression started (Expression.follows_mk connected)
            aligned').weaken
termination_by (stream.cursor.size, 0)
decreasing_by
  · exact Prod.Lex.left _ _ (Cursor.size_lt_of_lt passed)
  · exact Prod.Lex.left _ _ (Cursor.size_lt_of_lt farther)

theorem follows_readConnected
    {binding : Binding}
    {left left' : Expression}
    {modes : ModeStack}
    {stream stream' : TokenStream}
    (same : left.Follows r left')
    (aligned : r.Aligned stream.cursor stream'.cursor) :
    Ending.Follows r (ExpressionForm.Follows r)
      (readConnected binding left modes stream)
      (readConnected binding left' modes stream') := by
  rw [readConnected, readConnected]
  split
  · rename_i operator _
    exact (follows_readExpression aligned).map fun _ _ right =>
      congrArg₂ (ExpressionForm.binary operator) same right
  · rw [same.isAssignable_eq]
    split
    · exact (follows_readExpression aligned).map fun _ _ value =>
        congrArg₂ ExpressionForm.assign same value
    · rw [same.span_eq]
      exact .failure (Fault.follows_of_place (r.position_span _))
  · refine (follows_readExpressionUnless aligned).andThen ?_
    intro ifTrue ifTrue' modes next next' reached _ middle aligned'
    refine (follows_expect aligned').andThen ?_
    intro _ _ modes behind behind' passed _ _ aligned''
    have passed := Cursor.lt_of_le_of_lt reached passed
    exact ((follows_readExpression aligned'').map fun _ _ last =>
      ExpressionForm.follows_ternary same middle last).weaken
termination_by (stream.cursor.size, 5)
decreasing_by
  · exact Prod.Lex.right _ (by decide)
  · exact Prod.Lex.right _ (by decide)
  · exact Prod.Lex.right _ (by decide)
  · exact Prod.Lex.left _ _ (Cursor.size_lt_of_lt passed)

theorem follows_readExpressionUnless
    {kind : Symbol}
    {modes : ModeStack}
    {stream stream' : TokenStream}
    (aligned : r.Aligned stream.cursor stream'.cursor) :
    Ending.Follows r (Option.Rel (Expression.Follows r))
      (readExpressionUnless kind modes stream)
      (readExpressionUnless kind modes stream') := by
  rw [readExpressionUnless, readExpressionUnless]
  refine follows_onLook aligned ?_
  intro lexeme lexeme' span here behind here' behind' still _ _ _ _ _ follows alignedHere _
  dsimp only
  simp only [follows.symbol_iff]
  split
  · exact .success .none alignedHere
  · exact ((follows_readExpression alignedHere).map fun _ _ => .some).weaken
termination_by (stream.cursor.size, 4)
decreasing_by
  rw [still]
  exact Prod.Lex.right _ (by decide)

theorem follows_readOperand
    {modes : ModeStack}
    {stream stream' : TokenStream}
    (aligned : r.Aligned stream.cursor stream'.cursor) :
    Ending.Follows r (Expression.Follows r) (readOperand modes stream)
      (readOperand modes stream') := by
  rw [readOperand, readOperand]
  refine follows_onNextStart aligned ?_
  intro start start' reached _ started
  rw [r.rest_eq started, LineEnds.startsMarkup_write]
  split
  · have delegates : @DelegateBehind.Follows _ _ start start' r (Expression.Follows r)
        (fun modes inside _ =>
          (readExpression 0 modes (fresh stream.remembers inside)).toOutcome.weaken
            fun _ => Cursor.le_of_lt)
        (fun modes inside _ =>
          (readExpression 0 modes (fresh stream'.remembers inside)).toOutcome.weaken
            fun _ => Cursor.le_of_lt) := by
      intro modes inside inside' ahead _ aligned
      have fewer := Cursor.size_lt_of_lt (Cursor.lt_of_le_of_lt reached ahead)
      exact (@follows_readExpression 0 modes (fresh stream.remembers inside)
        (fresh stream'.remembers inside') aligned).toOutcome.weaken
    have element := @follows_readElementBehind _ _ _ _ _ _ _ _ _ _ _ delegates modes start start'
      start.le_refl start'.le_refl started
    generalize @readElementBehind Expression _ _ _ modes start _ = outcome at element ⊢
    generalize @readElementBehind Expression _ _ _ modes start' _ = outcome' at element ⊢
    cases element with
    | success same aligned' =>
        dsimp only
        rw [Rendering.spanTo_eq started aligned']
        exact .success (Expression.follows_mk (ExpressionForm.follows_markup same)) aligned'
    | failure same => exact .failure same
  · refine follows_onLook aligned ?_
    intro lexeme lexeme' span here behind here' behind' still _ passed still' _ passed' follows
      alignedHere alignedBehind
    have primary : Ending.Follows r (Expression.Follows r)
        ((readPrimary modes here).andThen fun primary modes next read =>
          (continueOperand start primary modes next).weaken (Q := (stream.cursor < ·))
            fun _ => Cursor.lt_of_lt_of_le (still ▸ read))
        ((readPrimary modes here').andThen fun primary modes next read =>
          (continueOperand start' primary modes next).weaken (Q := (stream'.cursor < ·))
            fun _ => Cursor.lt_of_lt_of_le (still' ▸ read)) := by
      refine (follows_readPrimary alignedHere).andThen ?_
      intro primary primary' modes next next' farther _ same aligned'
      have farther : stream.cursor < next.cursor := still ▸ farther
      exact (follows_continueOperand started same aligned').weaken
    cases follows with
    | string => exact primary
    | same lexeme =>
        dsimp only
        split
        · have passed := passed (by simp)
          refine (follows_readExpression alignedBehind).andThen ?_
          intro operand operand' modes next next' _ _ same aligned'
          rw [Rendering.spanTo_eq started aligned']
          exact .success (Expression.follows_mk (congrArg ExpressionForm.not same)) aligned'
        · have passed := passed (by simp)
          refine (follows_readExpression alignedBehind).andThen ?_
          intro operand operand' modes next next' _ _ same aligned'
          rw [Rendering.spanTo_eq started aligned']
          exact .success (Expression.follows_mk (congrArg ExpressionForm.negate same)) aligned'
        · exact primary
termination_by (stream.cursor.size, 2)
decreasing_by
  · rw [still]
    exact Prod.Lex.right _ (by decide)
  · exact Prod.Lex.left _ _ (Cursor.size_lt_of_lt farther)
  · exact Prod.Lex.left _ _ (Cursor.size_lt_of_lt passed)
  · exact Prod.Lex.left _ _ (Cursor.size_lt_of_lt passed)
  · exact Prod.Lex.left _ _ fewer

theorem follows_readPrimary
    {modes : ModeStack}
    {stream stream' : TokenStream}
    (aligned : r.Aligned stream.cursor stream'.cursor) :
    Ending.Follows r (Expression.Follows r) (readPrimary modes stream)
      (readPrimary modes stream') := by
  rw [readPrimary, readPrimary]
  refine follows_onNextStart aligned ?_
  intro start start' reached _ started
  refine follows_onLook aligned ?_
  intro lexeme lexeme' span here behind here' behind' still _ passed still' _ passed' follows
    alignedHere alignedBehind
  have leaf
      {form form' : ExpressionForm Expression}
      {passed : stream.cursor < behind.cursor}
      {passed' : stream'.cursor < behind'.cursor}
      (same : form.Follows r form') :
      Ending.Follows r (Expression.Follows r)
        (StreamOutcome.success ⟨form, start.spanTo behind.cursor⟩ modes behind passed)
        (StreamOutcome.success ⟨form', start'.spanTo behind'.cursor⟩ modes behind' passed') := by
    rw [Rendering.spanTo_eq started alignedBehind]
    exact .success (Expression.follows_mk same) alignedBehind
  cases follows with
  | string same => exact leaf (ExpressionForm.follows_string same)
  | same lexeme =>
      dsimp only
      split
      · exact leaf rfl
      · exact leaf rfl
      · exact leaf rfl
      · exact leaf rfl
      · have passed := passed (by simp)
        split
        · refine follows_onLook alignedBehind ?_
          intro lexeme lexeme' span here behind here' behind' still _ farther _ _ _ follows
            alignedHere alignedBehind
          dsimp only
          split <;> rename_i opened
          · rw [dif_pos (follows.symbol_iff.mpr opened)]
            have passed := Cursor.lt_trans passed (farther (by simp [opened]))
            refine (follows_readEntries alignedBehind).andThen ?_
            intro items items' modes stop stop' _ _ same aligned'
            rw [Rendering.spanTo_eq started aligned']
            exact .success (Expression.follows_mk (ExpressionForm.follows_array same)) aligned'
          · rw [dif_neg fun opened' => opened (follows.symbol_iff.mp opened'),
              Rendering.spanTo_eq started alignedHere]
            exact .success (Expression.follows_mk rfl) alignedHere
        · exact leaf rfl
      · have passed := passed (by simp)
        refine (follows_readEntries alignedBehind).andThen ?_
        intro items items' modes stop stop' _ _ same aligned'
        rw [Rendering.spanTo_eq started aligned']
        exact .success (Expression.follows_mk (ExpressionForm.follows_array same)) aligned'
      · have passed := passed (by simp)
        refine (follows_readArrowFunction alignedBehind).andThen ?_
        intro form form' modes stop stop' _ _ same aligned'
        rw [Rendering.spanTo_eq started aligned']
        exact .success (Expression.follows_mk same) aligned'
      · have passed := passed (by simp)
        refine (follows_readExpression alignedBehind).andThen ?_
        intro inner inner' modes next next' _ _ same aligned'
        exact ((follows_expect aligned').map fun _ _ _ => same).weaken
      · exact .failure (Fault.follows_of_place (r.position_span _))
termination_by (stream.cursor.size, 1)
decreasing_by
  all_goals exact Prod.Lex.left _ _ (Cursor.size_lt_of_lt passed)

theorem follows_readArrowFunction
    {modes : ModeStack}
    {stream stream' : TokenStream}
    (aligned : r.Aligned stream.cursor stream'.cursor) :
    Ending.Follows r (ExpressionForm.Follows r) (readArrowFunction modes stream)
      (readArrowFunction modes stream') := by
  rw [readArrowFunction, readArrowFunction]
  refine (follows_expect aligned).andThen ?_
  intro _ _ modes opened opened' passed _ _ aligned
  refine (follows_readParameters aligned).andThen ?_
  intro parameters parameters' modes closed closed' passed' _ listed aligned
  refine (follows_expect aligned).andThen ?_
  intro _ _ modes body body' passed'' _ _ aligned
  have passed := Cursor.lt_trans passed (Cursor.lt_trans passed' passed'')
  exact ((follows_readExpression aligned).map fun _ _ same =>
    ExpressionForm.follows_arrowFunction listed same).weaken
termination_by (stream.cursor.size, 4)
decreasing_by exact Prod.Lex.left _ _ (Cursor.size_lt_of_lt passed)

theorem follows_readEntries
    {close : Symbol}
    {keyed : Bool}
    {modes : ModeStack}
    {stream stream' : TokenStream}
    (aligned : r.Aligned stream.cursor stream'.cursor) :
    Ending.Follows r (List.Forall₂ (ArrayItem.Follows r))
      (readEntries close keyed modes stream)
      (readEntries close keyed modes stream') := by
  rw [readEntries, readEntries]
  refine follows_onLook aligned ?_
  intro lexeme lexeme' span here behind here' behind' still _ _ _ _ _ follows alignedHere
    alignedBehind
  dsimp only
  split <;> rename_i found
  · rw [dif_pos (follows.symbol_iff.mpr found)]
    exact .success .nil alignedBehind
  · rw [dif_neg fun found' => found (follows.symbol_iff.mp found')]
    refine follows_onNextStart alignedHere ?_
    intro start start' _ _ started
    refine (follows_eat alignedHere).andThen ?_
    intro unpack _ modes first first' reached _ same aligned
    subst same
    have reached : stream.cursor ≤ first.cursor := still ▸ reached
    refine (follows_readExpression aligned).andThen ?_
    intro value value' modes next next' passed _ same aligned
    have passed := Cursor.lt_of_le_of_lt reached passed
    refine (follows_readKeyedValue same aligned).andThen ?_
    intro pair pair' modes pairEnd pairEnd' reached' _ paired aligned
    have item : ArrayItem.Follows r ⟨pair.1, pair.2, unpack, start.spanTo pairEnd.cursor⟩
        ⟨pair'.1, pair'.2, unpack, start'.spanTo pairEnd'.cursor⟩ := by
      rw [Rendering.spanTo_eq started aligned]
      exact ArrayItem.follows_mk paired.key paired.value
    refine (follows_eat aligned).andThen ?_
    intro more _ modes rest rest' reached'' _ same aligned
    subst same
    have farther := Cursor.lt_of_lt_of_le passed (Cursor.le_trans reached' reached'')
    split
    · exact ((follows_readEntries aligned).map fun _ _ => .cons item).weaken
    · exact ((follows_expect aligned).map fun _ _ _ => .cons item .nil).weaken
termination_by (stream.cursor.size, 4)
decreasing_by
  · rcases Nat.lt_or_eq_of_le (Cursor.size_le_of_le reached) with less | same
    · exact Prod.Lex.left _ _ less
    · rw [same]
      exact Prod.Lex.right _ (by decide)
  · exact Prod.Lex.left _ _ (Cursor.size_lt_of_lt passed)
  · exact Prod.Lex.left _ _ (Cursor.size_lt_of_lt farther)

theorem follows_readKeyedValue
    {allowed : Bool}
    {first first' : Expression}
    {modes : ModeStack}
    {stream stream' : TokenStream}
    (same : first.Follows r first')
    (aligned : r.Aligned stream.cursor stream'.cursor) :
    Ending.Follows r (KeyedValue.Follows r) (readKeyedValue allowed first modes stream)
      (readKeyedValue allowed first' modes stream') := by
  rw [readKeyedValue, readKeyedValue]
  split
  · refine (follows_eat aligned).andThen ?_
    intro keyed _ modes next next' reached _ both aligned
    subst both
    split
    · exact ((follows_readExpression aligned).map fun _ _ value => ⟨.some same, value⟩).weaken
    · exact .success ⟨.none, same⟩ aligned
  · exact .success ⟨.none, same⟩ aligned
termination_by (stream.cursor.size, 4)
decreasing_by
  rcases Nat.lt_or_eq_of_le (Cursor.size_le_of_le reached) with less | same
  · exact Prod.Lex.left _ _ less
  · rw [same]
    exact Prod.Lex.right _ (by decide)

theorem follows_readArguments
    {modes : ModeStack}
    {stream stream' : TokenStream}
    (aligned : r.Aligned stream.cursor stream'.cursor) :
    Ending.Follows r (List.Forall₂ (Argument.Follows r)) (readArguments modes stream)
      (readArguments modes stream') := by
  rw [readArguments, readArguments]
  refine (follows_readEntries aligned).map fun items items' same => ?_
  rw [List.forall₂_map_left_iff, List.forall₂_map_right_iff]
  exact same.imp fun _ _ => ArrayItem.Follows.toArgument
termination_by (stream.cursor.size, 5)
decreasing_by exact Prod.Lex.right _ (by decide)

theorem follows_readMember
    {modes : ModeStack}
    {stream stream' : TokenStream}
    (aligned : r.Aligned stream.cursor stream'.cursor) :
    Ending.Follows r (Member.Follows r) (readMember modes stream)
      (readMember modes stream') := by
  rw [readMember, readMember]
  refine (follows_expectMemberName aligned).andThen ?_
  intro name _ modes next next' passed _ same aligned
  subst same
  refine follows_onLook aligned ?_
  intro lexeme lexeme' span here behind here' behind' still _ farther _ _ _ follows alignedHere
    alignedBehind
  dsimp only
  split <;> rename_i found
  · rw [dif_pos (follows.symbol_iff.mpr found)]
    have passed := Cursor.lt_trans passed (farther (by simp [found]))
    exact ((follows_readArguments alignedBehind).map fun _ _ listed => ⟨rfl, .some listed⟩).weaken
  · rw [dif_neg fun found' => found (follows.symbol_iff.mp found')]
    exact .success ⟨rfl, .none⟩ alignedHere
termination_by (stream.cursor.size, 6)
decreasing_by exact Prod.Lex.left _ _ (Cursor.size_lt_of_lt passed)

theorem follows_continueOperand
    {start start' : Cursor}
    {base base' : Expression}
    {modes : ModeStack}
    {stream stream' : TokenStream}
    (started : r.Aligned start start')
    (same : base.Follows r base')
    (aligned : r.Aligned stream.cursor stream'.cursor) :
    Ending.Follows r (Expression.Follows r) (continueOperand start base modes stream)
      (continueOperand start' base' modes stream') := by
  rw [continueOperand, continueOperand]
  refine follows_onLook aligned ?_
  intro lexeme lexeme' span here behind here' behind' _ _ passed _ _ _ follows alignedHere
    alignedBehind
  have goOn
      {accessed : StreamOutcome (stream.cursor < ·) (ExpressionForm Expression)}
      {accessed' : StreamOutcome (stream'.cursor < ·) (ExpressionForm Expression)}
      (first : Ending.Follows r (ExpressionForm.Follows r) accessed accessed') :
      Ending.Follows r (Expression.Follows r)
        (accessed.andThen fun form modes next passed =>
          (continueOperand start ⟨form, start.spanTo next.cursor⟩ modes next).weaken
            fun _ reached => Cursor.le_trans (Cursor.le_of_lt passed) reached)
        (accessed'.andThen fun form modes next passed =>
          (continueOperand start' ⟨form, start'.spanTo next.cursor⟩ modes next).weaken
            fun _ reached => Cursor.le_trans (Cursor.le_of_lt passed) reached) := by
    refine first.andThen ?_
    intro form form' modes next next' passed _ same aligned
    rw [Rendering.spanTo_eq started aligned]
    exact (follows_continueOperand started (Expression.follows_mk same) aligned).weaken
  cases follows with
  | string => exact .success same.nameAsConstant alignedHere
  | same lexeme =>
      dsimp only
      split
      · have passed := passed (by simp)
        refine goOn ((follows_readMember alignedBehind).map ?_).weaken
        rintro ⟨name, arguments⟩ ⟨_, arguments'⟩ ⟨rfl, listed⟩
        exact ExpressionForm.follows_memberForm same listed
      · have passed := passed (by simp)
        refine goOn ((follows_readMember alignedBehind).map ?_).weaken
        rintro ⟨name, arguments⟩ ⟨_, arguments'⟩ ⟨rfl, listed⟩
        exact ExpressionForm.follows_memberForm same listed
      · have passed := passed (by simp)
        refine goOn ((follows_readExpressionUnless alignedBehind).andThen ?_)
        intro index index' modes next next' _ _ indexed aligned
        exact ((follows_expect aligned).map fun _ _ _ =>
          ExpressionForm.follows_entry same indexed).weaken
      · have passed := passed (by simp)
        rw [same.isCallable_eq]
        split
        · exact goOn ((follows_readArguments alignedBehind).map fun _ _ listed =>
            ExpressionForm.follows_call same listed).weaken
        · exact .success same.nameAsConstant alignedHere
      · have passed := passed (by simp)
        rw [same.isName_eq]
        split
        · refine goOn ((follows_readMember alignedBehind).map ?_).weaken
          rintro ⟨name, arguments⟩ ⟨_, arguments'⟩ ⟨rfl, listed⟩
          exact ExpressionForm.follows_staticMemberForm same listed
        · exact .success same.nameAsConstant alignedHere
      · exact .success same.nameAsConstant alignedHere
termination_by (stream.cursor.size, 0)
decreasing_by
  all_goals exact Prod.Lex.left _ _ (Cursor.size_lt_of_lt passed)

end

end EmbeddedMarkup
