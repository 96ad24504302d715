import EmbeddedMarkup.Expression.Source
import EmbeddedMarkup.Proofs.Reading.Completeness
import EmbeddedMarkup.Proofs.Reading.Conditions
import EmbeddedMarkup.Proofs.Reading.Single

/-!
# Conditions on reading host expressions

Conditions that pass over tokens and over markup hold wherever the readers of host expressions come
to, with what they expect there.  The readers ask for markup where an operand starts with a tag, and
give themselves as the delegate for its holes; what is required of markup may therefore assume that
they meet the conditions wherever a hole is entered.

Besides the conditions, the readers hand on where an expression starts, because a fault may be
reported there later.
-/

namespace EmbeddedMarkup

open TokenStream

namespace Conditions

/-- The conditions pass over everything that the readers of host expressions take. -/
structure PassExpressions (conditions : Conditions) : Prop extends conditions.PassTokens where
  charged {modes : ModeStack} : conditions.modes modes → conditions.modes modes.charged
  exited {modes : ModeStack} : conditions.modes modes → conditions.modes modes.exitExpression
  refused {start : Cursor} {modes after : ModeStack} {refusal : ModeRefusal} :
    conditions.StartsToken start →
    modes.enterExpression start.position = .error refusal after →
    conditions.fault (.ofMode refusal)
  /-- Markup is an operand, and is read with the readers themselves for its holes. -/
  markup {remembers : Bool} {modes : ModeStack} {expected : Expected} {c start : Cursor} :
    conditions.place expected c →
    expected.allowsMarkup = true →
    skipTrivia c = ⟨.ok (), start⟩ →
    startsMarkup start.rest = true →
    conditions.modes modes →
    (∀ inner inside ahead, conditions.modes inner → conditions.place .operand inside →
      Ending.Meets (hostBehind remembers start inner inside ahead) conditions
        (conditions.Leads _ .connective)) →
    Ending.Meets (readElementBehind (hostBehind remembers start) modes start start.le_refl)
      conditions (conditions.Leads _ .connective)

/-- The expression starts where a token does, and an operand was read. -/
def Read (conditions : Conditions) (expression : Expression) (stop : Cursor) : Prop :=
  conditions.place .connective stop ∧ conditions.StartsSpan expression.span

end Conditions

variable {conditions : Conditions} {expected : Expected} {modes : ModeStack} {stream : TokenStream}

namespace Ending.Meets

variable {α β : Type} {P : Cursor → Prop}

theorem leads
    {outcome : StreamOutcome P α}
    {f : α → β}
    (meets : Ending.Meets outcome conditions (conditions.Leads α expected)) :
    Ending.Meets (outcome.map f) conditions (conditions.Leads β expected) :=
  meets.map fun _ _ there => there

theorem leadsOn
    {outcome : StreamOutcome P Expression}
    {f : Expression → β}
    (meets : Ending.Meets outcome conditions conditions.Read) :
    Ending.Meets (outcome.map f) conditions (conditions.Leads β .connective) :=
  meets.map fun _ _ read => read.1

end Ending.Meets

/-! ## Tokens -/

section Tokens

variable {kind : Symbol} (passes : conditions.PassTokens)

include passes

/-- The reader of a single token meets the conditions if they lead behind what it takes. -/
theorem TokenStream.ReadsOne.meets
    {α : Type}
    {P : Cursor → Prop}
    {Good : α → Cursor → Prop}
    {use : Token → TokenUse α}
    {outcome : StreamOutcome P α}
    (reads : stream.ReadsOne modes use outcome)
    (proper : conditions.modes modes)
    (there : conditions.place expected stream.cursor)
    (taken : ∀ token value behind, use token = .take value →
      (expected.admits token.lexeme = true →
        conditions.place (expected.behind token.lexeme) behind) → Good value behind)
    (left : ∀ token value, use token = .leave value → Good value stream.cursor) :
    Ending.Meets outcome conditions Good := by
  obtain ⟨leads, rfl⟩ := reads
  refine passes.onLook there ?_
  intro lexeme span here behind still reached passed starts next
  have taken := taken ⟨lexeme, span⟩
  have left := left ⟨lexeme, span⟩
  generalize leads ⟨⟨lexeme, span⟩, here, behind, still, reached, passed⟩ = led
  dsimp only at led ⊢
  generalize use ⟨lexeme, span⟩ = used at taken left led
  cases used with
  | take value => exact .success proper (taken _ _ rfl next)
  | leave value => exact .success proper (still ▸ left _ rfl)
  | refuse wanted taken => exact .failure (passes.grammar _ starts)

theorem meets_expect
    (admitted : expected.admits (.symbol kind) = true)
    (proper : conditions.modes modes)
    (there : conditions.place expected stream.cursor) :
    Ending.Meets (stream.expect kind modes) conditions
      (conditions.Leads Unit (Expected.behindSymbol kind)) := by
  refine readsOne_expect.meets passes proper there ?_ ?_
  · intro token _ behind told next
    rw [TokenUse.symbol_eq_take.mp told, Expected.behind_symbol] at next
    exact next admitted
  · exact fun token _ told => absurd told TokenUse.symbol_ne_leave

theorem meets_eat
    (admitted : expected.admits (.symbol kind) = true)
    (proper : conditions.modes modes)
    (there : conditions.place expected stream.cursor) :
    Ending.Meets (stream.eat kind modes) conditions fun taken stop =>
      conditions.place (if taken then Expected.behindSymbol kind else expected) stop := by
  refine readsOne_eat.meets passes proper there ?_ ?_
  · intro token taken behind told next
    obtain ⟨rfl, found⟩ := TokenUse.optionalSymbol_eq_take.mp told
    rw [found, Expected.behind_symbol] at next
    exact next admitted
  · intro token taken told
    obtain ⟨rfl, -⟩ := TokenUse.optionalSymbol_eq_leave.mp told
    exact there

/-- Behind a type a variable is expected as it was in front of it. -/
theorem meets_eatIdentifier
    (proper : conditions.modes modes)
    (there : conditions.place .item stream.cursor) :
    Ending.Meets (stream.eatIdentifier modes) conditions fun _ stop =>
      conditions.place .item stop ∨ conditions.place .connective stop := by
  refine readsOne_eatIdentifier.meets passes proper there ?_ fun _ _ _ => .inl there
  intro token _ behind told next
  obtain ⟨text, found⟩ := TokenUse.optionalIdentifier_eq_take.mp told
  rw [found] at next
  exact .inr (next rfl)

theorem meets_expectVariable
    (proper : conditions.modes modes)
    (there : conditions.place .item stream.cursor ∨ conditions.place .connective stream.cursor) :
    Ending.Meets (stream.expectVariable modes) conditions
      (conditions.Leads Parameter .connective) := by
  rcases there with there | there
  all_goals
    refine readsOne_expectVariable.meets passes proper there ?_ ?_
    · intro token parameter behind told next
      rw [TokenUse.parameter_eq_take.mp told] at next
      exact next rfl
    · exact fun token _ told => absurd told TokenUse.parameter_ne_leave

theorem meets_expectMemberName
    (proper : conditions.modes modes)
    (there : conditions.place .member stream.cursor) :
    Ending.Meets (stream.expectMemberName modes) conditions
      (conditions.Leads String .connective) := by
  refine readsOne_expectMemberName.meets passes proper there ?_ ?_
  · intro token text behind told next
    obtain ⟨kind, found⟩ := TokenUse.memberName_eq_take.mp told
    rw [found] at next
    exact next rfl
  · exact fun token _ told => absurd told TokenUse.memberName_ne_leave

theorem meets_readParameters
    (proper : conditions.modes modes)
    (there : conditions.place .item stream.cursor) :
    Ending.Meets (stream.readParameters modes) conditions
      (conditions.Leads (List Parameter) .connective) := by
  induction size : stream.cursor.size using Nat.strongRecOn generalizing stream modes with
  | ind size shorter =>
      subst size
      rw [readParameters]
      refine passes.onLook there ?_
      intro lexeme span here behind still reached passed starts next
      dsimp only
      split
      · rename_i closed
        subst closed
        exact .success proper (next rfl)
      · refine (meets_eat passes rfl proper (still ▸ there)).andThen ?_
        intro nullable modes typed read proper typedThere
        have typedThere : conditions.place .item typed.cursor := by
          cases nullable <;> exact typedThere
        refine (meets_eatIdentifier passes proper typedThere).andThen ?_
        intro _ modes named read' proper namedThere
        refine (meets_expectVariable passes proper namedThere).andThen ?_
        intro parameter modes listed passed' proper listedThere
        refine (meets_eat passes rfl proper listedThere).andThen ?_
        intro more modes next read'' proper nextThere
        split <;> rename_i more
        · rw [if_pos more] at nextThere
          have passed : stream.cursor < next.cursor :=
            still ▸ Cursor.lt_of_le_of_lt read
              (Cursor.lt_of_le_of_lt read' (Cursor.lt_of_lt_of_le passed' read''))
          exact (shorter _ (Cursor.size_lt_of_lt passed) proper nextThere rfl).leads.weaken
        · rw [if_neg more] at nextThere
          exact (@meets_expect _ .connective _ _ .rightParen passes rfl proper
            nextThere).leads.weaken

end Tokens

/-! ## Expressions -/

/-- Arguments are entries. -/
theorem meets_readArguments
    (entries : Ending.Meets (readEntries .rightParen false modes stream) conditions
      (conditions.Leads _ .connective)) :
    Ending.Meets (readArguments modes stream) conditions (conditions.Leads _ .connective) := by
  rw [readArguments]
  exact entries.leads

section Expressions

variable (passes : conditions.PassExpressions)

include passes

mutual

/-- An expression is read where an operand is expected, and starts where a token starts. -/
theorem meets_readExpression
    {power : Nat}
    {expected : Expected}
    {modes : ModeStack}
    {stream : TokenStream}
    (allowed : expected.allowsMarkup = true)
    (proper : conditions.modes modes)
    (there : conditions.place expected stream.cursor) :
    Ending.Meets (readExpression power modes stream) conditions conditions.Read := by
  rw [readExpression]
  refine passes.onNextStart there ?_
  intro start _ skipped
  have starts : conditions.StartsToken start := ⟨expected, _, there, skipped⟩
  cases entered : ModeStack.enterExpression start.position modes with
  | error refusal after => exact .failure (passes.refused starts entered)
  | ok _ modes =>
      obtain ⟨-, rfl⟩ := ModeStack.enterExpression_eq_ok.mp entered
      refine .mapModes (fun _ => passes.exited)
        ((meets_readOperand allowed (passes.charged proper) there).andThen ?_)
      intro left modes behind passed proper read
      exact (meets_continueExpression starts proper read).weaken
termination_by (stream.cursor.size, 3)
decreasing_by
  · exact Prod.Lex.right _ (by decide)
  · exact Prod.Lex.left _ _ (Cursor.size_lt_of_lt passed)

theorem meets_continueExpression
    {start : Cursor}
    {power : Nat}
    {left : Expression}
    {modes : ModeStack}
    {stream : TokenStream}
    (starts : conditions.StartsToken start)
    (proper : conditions.modes modes)
    (read : conditions.Read left stream.cursor) :
    Ending.Meets (continueExpression start power left modes stream) conditions conditions.Read := by
  rw [continueExpression]
  refine passes.onLook read.1 ?_
  intro lexeme span here behind still reached passed _ next
  have done : conditions.Read left here.cursor := still ▸ read
  dsimp only
  split
  · exact .success proper done
  · rename_i binding connects
    split
    · exact .success proper done
    · have passed : stream.cursor < behind.cursor :=
        passed (Lexeme.ne_endOfInput_of_binding? connects)
      obtain ⟨admitted, follows⟩ := admits_of_binding? connects
      refine (meets_readConnected proper (follows ▸ next admitted) read.2).andThen ?_
      intro form modes next farther proper there
      have farther : stream.cursor < next.cursor := Cursor.lt_trans passed farther
      exact (meets_continueExpression starts proper ⟨there, starts.spanTo next.cursor⟩).weaken
termination_by (stream.cursor.size, 0)
decreasing_by
  · exact Prod.Lex.left _ _ (Cursor.size_lt_of_lt passed)
  · exact Prod.Lex.left _ _ (Cursor.size_lt_of_lt farther)

theorem meets_readConnected
    {binding : Binding}
    {left : Expression}
    {modes : ModeStack}
    {stream : TokenStream}
    (proper : conditions.modes modes)
    (there : conditions.place (if binding.connective = .ternary then .item else .operand)
      stream.cursor)
    (begins : conditions.StartsSpan left.span) :
    Ending.Meets (readConnected binding left modes stream) conditions
      (conditions.Leads _ .connective) := by
  rw [readConnected]
  split
  · rename_i operator connective
    rw [connective] at there
    exact (meets_readExpression rfl proper there).leadsOn
  · rename_i connective
    rw [connective] at there
    split
    · exact (meets_readExpression rfl proper there).leadsOn
    · exact .failure (passes.grammar _ begins)
  · rename_i connective
    rw [connective] at there
    refine (@meets_readExpressionUnless .colon _ _ rfl rfl proper there).andThen ?_
    intro ifTrue modes next read proper ⟨expected, admitted, there⟩
    refine (meets_expect passes.toPassTokens admitted proper there).andThen ?_
    intro _ modes behind passed proper there
    have passed : stream.cursor < behind.cursor := Cursor.lt_of_le_of_lt read passed
    exact (meets_readExpression rfl proper there).leadsOn.weaken
termination_by (stream.cursor.size, 5)
decreasing_by
  · exact Prod.Lex.right _ (by decide)
  · exact Prod.Lex.right _ (by decide)
  · exact Prod.Lex.right _ (by decide)
  · exact Prod.Lex.left _ _ (Cursor.size_lt_of_lt passed)

/-- Behind an expression or nothing, the symbol is expected that stands for its absence. -/
theorem meets_readExpressionUnless
    {kind : Symbol}
    {modes : ModeStack}
    {stream : TokenStream}
    (instead : Expected.item.admits (.symbol kind) = true)
    (behind : Expected.connective.admits (.symbol kind) = true)
    (proper : conditions.modes modes)
    (there : conditions.place .item stream.cursor) :
    Ending.Meets (readExpressionUnless kind modes stream) conditions fun _ stop =>
      ∃ expected : Expected, expected.admits (.symbol kind) = true ∧
        conditions.place expected stop := by
  rw [readExpressionUnless]
  refine passes.onLook there ?_
  intro lexeme span here _ still reached passed _ _
  have there : conditions.place .item here.cursor := still ▸ there
  dsimp only
  split
  · exact .success proper ⟨.item, instead, there⟩
  · exact ((meets_readExpression rfl proper there).map
      fun _ _ read => ⟨.connective, behind, read.1⟩).weaken
termination_by (stream.cursor.size, 4)
decreasing_by
  rw [still]
  exact Prod.Lex.right _ (by decide)

/-- Markup is read where an operand starts with a tag. -/
theorem meets_readOperand
    {expected : Expected}
    {modes : ModeStack}
    {stream : TokenStream}
    (allowed : expected.allowsMarkup = true)
    (proper : conditions.modes modes)
    (there : conditions.place expected stream.cursor) :
    Ending.Meets (readOperand modes stream) conditions conditions.Read := by
  rw [readOperand]
  refine passes.onNextStart there ?_
  intro start reached skipped
  have starts : conditions.StartsToken start := ⟨expected, _, there, skipped⟩
  split
  · rename_i markup
    have element := @Conditions.PassExpressions.markup _ passes stream.remembers _ _ _ _ there
      allowed skipped markup proper fun inner inside ahead proper there => by
        have fewer := Cursor.size_lt_of_lt (Cursor.lt_of_le_of_lt reached ahead)
        exact ((@meets_readExpression 0 .operand inner (fresh stream.remembers inside) rfl proper
          there).mono fun _ _ read => read.1).toOutcome.weaken
    unfold hostBehind at element
    generalize @readElementBehind Expression _ _ _ modes start _ = outcome at element ⊢
    cases element with
    | success proper there => exact .success proper ⟨there, starts.spanTo _⟩
    | failure allowed => exact .failure allowed
  · refine passes.onLook there ?_
    intro lexeme span here behind still _ passed _ next
    dsimp only
    split
    · have passed : stream.cursor < behind.cursor := passed (by simp)
      have next := next (Expected.admits_of_startsOperand allowed rfl)
      rw [Expected.behind_symbol] at next
      exact (meets_readExpression rfl proper next).andThen
        fun _ _ _ _ proper read => .success proper ⟨read.1, starts.spanTo _⟩
    · have passed : stream.cursor < behind.cursor := passed (by simp)
      have next := next (Expected.admits_of_startsOperand allowed rfl)
      rw [Expected.behind_symbol] at next
      exact (meets_readExpression rfl proper next).andThen
        fun _ _ _ _ proper read => .success proper ⟨read.1, starts.spanTo _⟩
    · refine (meets_readPrimary allowed proper (still ▸ there)).andThen ?_
      intro primary modes next read proper done
      have farther : stream.cursor < next.cursor := still ▸ read
      exact (meets_continueOperand starts proper done).weaken
termination_by (stream.cursor.size, 2)
decreasing_by
  · exact Prod.Lex.left _ _ (Cursor.size_lt_of_lt passed)
  · exact Prod.Lex.left _ _ (Cursor.size_lt_of_lt passed)
  · rw [still]
    exact Prod.Lex.right _ (by decide)
  · exact Prod.Lex.left _ _ (Cursor.size_lt_of_lt farther)
  · exact Prod.Lex.left _ _ fewer

theorem meets_readPrimary
    {expected : Expected}
    {modes : ModeStack}
    {stream : TokenStream}
    (allowed : expected.allowsMarkup = true)
    (proper : conditions.modes modes)
    (there : conditions.place expected stream.cursor) :
    Ending.Meets (readPrimary modes stream) conditions conditions.Read := by
  rw [readPrimary]
  refine passes.onNextStart there ?_
  intro start _ skipped
  have starts : conditions.StartsToken start := ⟨expected, _, there, skipped⟩
  refine passes.onLook there ?_
  intro lexeme span here behind still reached passed shown next
  have operand (starts : Expected.startsOperand lexeme = true)
      (noSymbol : ∀ kind, lexeme ≠ .symbol kind) :
      conditions.place .connective behind.cursor := by
    have next := next (Expected.admits_of_startsOperand allowed starts)
    rwa [expected.behind_eq_connective starts noSymbol] at next
  have opened {kind : Symbol} (starts : Expected.startsOperand (.symbol kind) = true)
      (found : lexeme = .symbol kind) :
      conditions.place (Expected.behindSymbol kind) behind.cursor := by
    subst found
    have next := next (Expected.admits_of_startsOperand allowed starts)
    rwa [Expected.behind_symbol] at next
  dsimp only
  split
  · exact .success proper ⟨operand rfl (by simp), starts.spanTo _⟩
  · exact .success proper ⟨operand rfl (by simp), starts.spanTo _⟩
  · exact .success proper ⟨operand rfl (by simp), starts.spanTo _⟩
  · exact .success proper ⟨operand rfl (by simp), starts.spanTo _⟩
  · have passed : stream.cursor < behind.cursor := passed (by simp)
    have named := operand rfl (by simp)
    split
    · refine passes.onLook named ?_
      intro lexeme span here behind' still reached' passed' _ next'
      dsimp only
      split
      · rename_i opened
        subst opened
        have passed : stream.cursor < behind'.cursor := Cursor.lt_trans passed (passed' (by simp))
        exact (meets_readEntries rfl proper (next' rfl)).andThen
          fun _ _ _ _ proper there => .success proper ⟨there, starts.spanTo _⟩
      · exact .success proper ⟨still ▸ named, starts.spanTo _⟩
    · exact .success proper ⟨named, starts.spanTo _⟩
  · have passed : stream.cursor < behind.cursor := passed (by simp)
    exact (meets_readEntries rfl proper (opened rfl rfl)).andThen
      fun _ _ _ _ proper there => .success proper ⟨there, starts.spanTo _⟩
  · have passed : stream.cursor < behind.cursor := passed (by simp)
    exact (meets_readArrowFunction proper (operand rfl (by simp))).andThen
      fun _ _ _ _ proper there => .success proper ⟨there, starts.spanTo _⟩
  · have passed : stream.cursor < behind.cursor := passed (by simp)
    refine (@meets_readExpression 0 .item _ _ rfl proper (opened rfl rfl)).andThen ?_
    intro inner modes next read' proper read
    exact ((meets_expect passes.toPassTokens rfl proper read.1).map
      fun _ _ there => ⟨there, read.2⟩).weaken
  · exact .failure (passes.grammar _ shown)
termination_by (stream.cursor.size, 1)
decreasing_by
  all_goals exact Prod.Lex.left _ _ (Cursor.size_lt_of_lt passed)

theorem meets_readArrowFunction
    {modes : ModeStack}
    {stream : TokenStream}
    (proper : conditions.modes modes)
    (there : conditions.place .connective stream.cursor) :
    Ending.Meets (readArrowFunction modes stream) conditions (conditions.Leads _ .connective) := by
  rw [readArrowFunction]
  refine (meets_expect passes.toPassTokens rfl proper there).andThen ?_
  intro _ modes opened passed proper there
  refine (meets_readParameters passes.toPassTokens proper there).andThen ?_
  intro parameters modes closed passed' proper there
  refine (meets_expect passes.toPassTokens rfl proper there).andThen ?_
  intro _ modes body passed'' proper there
  have passed : stream.cursor < body.cursor :=
    Cursor.lt_trans passed (Cursor.lt_trans passed' passed'')
  exact (meets_readExpression rfl proper there).leadsOn.weaken
termination_by (stream.cursor.size, 4)
decreasing_by exact Prod.Lex.left _ _ (Cursor.size_lt_of_lt passed)

theorem meets_readEntries
    {close : Symbol}
    {keyed : Bool}
    {modes : ModeStack}
    {stream : TokenStream}
    (closes : Expected.behindSymbol close = .connective)
    (proper : conditions.modes modes)
    (there : conditions.place .item stream.cursor) :
    Ending.Meets (readEntries close keyed modes stream) conditions
      (conditions.Leads _ .connective) := by
  obtain ⟨instead, behindItem⟩ := Expected.admits_of_behindSymbol closes
  rw [readEntries]
  refine passes.onLook there ?_
  intro lexeme span here behind still reached passed _ next
  dsimp only
  split
  · rename_i closed
    subst closed
    have next := next instead
    rw [Expected.behind_symbol, closes] at next
    exact .success proper next
  · have there : conditions.place .item here.cursor := still ▸ there
    refine passes.onNextStart there ?_
    intro start _ _
    refine (meets_eat passes.toPassTokens rfl proper there).andThen ?_
    intro unpack modes first read proper firstThere
    have firstThere : conditions.place .item first.cursor := by
      cases unpack <;> exact firstThere
    have reached : stream.cursor ≤ first.cursor := still ▸ read
    refine (meets_readExpression rfl proper firstThere).andThen ?_
    intro value modes next passed proper value
    have passed : stream.cursor < next.cursor := Cursor.lt_of_le_of_lt reached passed
    refine (meets_readKeyedValue proper value.1).andThen ?_
    intro pair modes pairEnd read' proper pairThere
    refine (meets_eat passes.toPassTokens rfl proper pairThere).andThen ?_
    intro more modes rest read'' proper restThere
    have farther : stream.cursor < rest.cursor :=
      Cursor.lt_of_lt_of_le passed (Cursor.le_trans read' read'')
    split <;> rename_i more
    · rw [if_pos more] at restThere
      exact (meets_readEntries closes proper restThere).leads.weaken
    · rw [if_neg more] at restThere
      have closed := meets_expect passes.toPassTokens behindItem proper restThere
      rw [closes] at closed
      exact closed.leads.weaken
termination_by (stream.cursor.size, 4)
decreasing_by
  · rcases Nat.lt_or_eq_of_le (Cursor.size_le_of_le reached) with less | same
    · exact Prod.Lex.left _ _ less
    · rw [same]
      exact Prod.Lex.right _ (by decide)
  · exact Prod.Lex.left _ _ (Cursor.size_lt_of_lt passed)
  · exact Prod.Lex.left _ _ (Cursor.size_lt_of_lt farther)

theorem meets_readKeyedValue
    {allowed : Bool}
    {first : Expression}
    {modes : ModeStack}
    {stream : TokenStream}
    (proper : conditions.modes modes)
    (there : conditions.place .connective stream.cursor) :
    Ending.Meets (readKeyedValue allowed first modes stream) conditions
      (conditions.Leads _ .connective) := by
  rw [readKeyedValue]
  split
  · refine (meets_eat passes.toPassTokens rfl proper there).andThen ?_
    intro keyed modes next read proper there
    split <;> rename_i keyed
    · rw [if_pos keyed] at there
      exact (meets_readExpression rfl proper there).leadsOn.weaken
    · rw [if_neg keyed] at there
      exact .success proper there
  · exact .success proper there
termination_by (stream.cursor.size, 4)
decreasing_by
  rcases Nat.lt_or_eq_of_le (Cursor.size_le_of_le read) with less | same
  · exact Prod.Lex.left _ _ less
  · rw [same]
    exact Prod.Lex.right _ (by decide)

theorem meets_readMember
    {modes : ModeStack}
    {stream : TokenStream}
    (proper : conditions.modes modes)
    (there : conditions.place .member stream.cursor) :
    Ending.Meets (readMember modes stream) conditions (conditions.Leads _ .connective) := by
  rw [readMember]
  refine (meets_expectMemberName passes.toPassTokens proper there).andThen ?_
  intro name modes next passed proper there
  refine passes.onLook there ?_
  intro lexeme span here behind still reached farther _ next'
  dsimp only
  split
  · rename_i found
    subst found
    have passed : stream.cursor < behind.cursor := Cursor.lt_trans passed (farther (by simp))
    have entries := @meets_readEntries .rightParen false modes behind rfl proper (next' rfl)
    exact (meets_readArguments entries).leads.weaken
  · exact .success proper (still ▸ there)
termination_by (stream.cursor.size, 6)
decreasing_by exact Prod.Lex.left _ _ (Cursor.size_lt_of_lt passed)

theorem meets_continueOperand
    {start : Cursor}
    {base : Expression}
    {modes : ModeStack}
    {stream : TokenStream}
    (starts : conditions.StartsToken start)
    (proper : conditions.modes modes)
    (read : conditions.Read base stream.cursor) :
    Ending.Meets (continueOperand start base modes stream) conditions conditions.Read := by
  rw [continueOperand]
  refine passes.onLook read.1 ?_
  intro lexeme span here behind still reached passed _ next
  have goOn
      {accessed : StreamOutcome (stream.cursor < ·) (ExpressionForm Expression)}
      (meets : Ending.Meets accessed conditions (conditions.Leads _ .connective)) :
      Ending.Meets
        (accessed.andThen fun form modes next passed =>
          (continueOperand start ⟨form, start.spanTo next.cursor⟩ modes next).weaken
            fun _ reached => (Cursor.le_trans (Cursor.le_of_lt passed) reached :
              stream.cursor ≤ _))
        conditions conditions.Read := by
    refine meets.andThen ?_
    intro form modes next passed proper there
    exact (meets_continueOperand starts proper ⟨there, starts.spanTo next.cursor⟩).weaken
  have done : conditions.Read base.nameAsConstant here.cursor := by
    refine ⟨still ▸ read.1, ?_⟩
    unfold Expression.nameAsConstant
    split <;> exact read.2
  dsimp only
  split
  · have passed : stream.cursor < behind.cursor := passed (by simp)
    exact goOn (meets_readMember proper (next rfl)).leads.weaken
  · have passed : stream.cursor < behind.cursor := passed (by simp)
    exact goOn (meets_readMember proper (next rfl)).leads.weaken
  · have passed : stream.cursor < behind.cursor := passed (by simp)
    refine goOn ((@meets_readExpressionUnless .rightBracket _ _ rfl rfl proper
      (next rfl)).andThen ?_)
    intro index modes next read proper ⟨expected, admitted, there⟩
    exact (meets_expect passes.toPassTokens admitted proper there).leads.weaken
  · have passed : stream.cursor < behind.cursor := passed (by simp)
    split
    · have entries := @meets_readEntries .rightParen false modes behind rfl proper (next rfl)
      exact goOn (meets_readArguments entries).leads.weaken
    · exact .success proper done
  · have passed : stream.cursor < behind.cursor := passed (by simp)
    split
    · exact goOn (meets_readMember proper (next rfl)).leads.weaken
    · exact .success proper done
  · exact .success proper done
termination_by (stream.cursor.size, 0)
decreasing_by
  all_goals exact Prod.Lex.left _ _ (Cursor.size_lt_of_lt passed)

end

/-- A text that is no expression fails with a fault as required. -/
theorem fault_of_ofText
    {text : String}
    {budget : Nat}
    {fault : Fault}
    (proper : conditions.modes (.initial budget))
    (there : conditions.place .operand (.ofText text))
    (failed : Expression.ofText text budget = .error fault) :
    conditions.fault fault := by
  have meets := @meets_readExpression _ passes 0 .operand (.initial budget)
    (.fresh true (.ofText text)) rfl proper there
  unfold Expression.ofText at failed
  generalize readExpression 0 (.initial budget) (.fresh true (.ofText text)) = outcome
    at meets failed
  cases outcome with
  | failure =>
      cases failed
      cases meets with
      | failure allowed => exact allowed
  | success =>
      cases meets with
      | success _ read =>
          dsimp only at failed
          split at failed
          · rename_i textFault looked
            cases failed
            exact passes.unread read.1 (readToken_of_look_eq_error looked)
          · rename_i view looked
            split at failed <;> cases failed
            exact passes.grammar _ (conditions.startsSpan_of_look read.1 looked)

end Expressions

end EmbeddedMarkup
