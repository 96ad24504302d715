import EmbeddedMarkup.Proofs.Reading.MarkupSoundness
import EmbeddedMarkup.Proofs.Reading.Tokens

/-!
# Expressions are read by the rules

What the readers of host expressions yield has a derivation by the rules of reading, and the
modes are left as they were found.  The readers call each other, so this is shown for all of them
together, by recursion on the same measure.  Markup in an expression asks for expressions behind
its own start, which are covered by the recursion.
-/

namespace EmbeddedMarkup

open TokenStream StreamOutcome

mutual

theorem reads_of_readExpression
    {power : Nat}
    {modes after : ModeStack}
    {stream : TokenStream}
    {stop : Cursor}
    {whole : Expression}
    (proper : modes.frames ≠ [])
    (reaches : (readExpression power modes stream).Reaches whole after stop) :
    after = modes ∧ Reads modes.levels (.expression power whole) stream.cursor stop := by
  rw [readExpression, reaches_onNextStart] at reaches
  obtain ⟨start, skipped, _, reaches⟩ := reaches
  split at reaches
  · exact absurd reaches not_reaches_failure
  · rename_i entered
    obtain ⟨enough, rfl⟩ := ModeStack.enterExpression_eq_ok.mp entered
    have chargedProper : modes.charged.frames ≠ [] := proper
    rw [reaches_mapModes] at reaches
    obtain ⟨inner, reaches, rfl⟩ := reaches
    rw [reaches_andThen] at reaches
    obtain ⟨left, _, behind, yields, passed, reaches⟩ := reaches
    obtain ⟨rfl, operand⟩ := reads_of_readOperand chargedProper yields.reaches
    rw [reaches_weaken] at reaches
    obtain ⟨rfl, continuation⟩ := reads_of_continueExpression chargedProper reaches
    rw [ModeStack.levels_charged] at operand continuation
    have level : modes.levels = modes.levels - 1 + 1 := by omega
    rw [level]
    exact ⟨rfl, .expression skipped operand continuation⟩
termination_by (stream.cursor.size, 3)
decreasing_by
  · exact Prod.Lex.right _ (by decide)
  · exact Prod.Lex.left _ _ (Cursor.size_lt_of_lt passed)

theorem reads_of_continueExpression
    {start : Cursor}
    {power : Nat}
    {left whole : Expression}
    {modes after : ModeStack}
    {stream : TokenStream}
    {stop : Cursor}
    (proper : modes.frames ≠ [])
    (reaches : (continueExpression start power left modes stream).Reaches whole after stop) :
    after = modes ∧
      Reads modes.levels (.continuation start power left whole) stream.cursor stop := by
  rw [continueExpression, reaches_onLook] at reaches
  obtain ⟨view, looked, reaches⟩ := reaches
  have next := nextLexeme_of_look looked
  split at reaches
  · rename_i connects
    obtain ⟨rfl, rfl, rfl⟩ := reaches_success.mp reaches
    rw [view.here_cursor]
    exact ⟨rfl, .stop next (by simp [connects])⟩
  · rename_i binding connects
    split at reaches
    · rename_i weaker
      obtain ⟨rfl, rfl, rfl⟩ := reaches_success.mp reaches
      rw [view.here_cursor]
      refine ⟨rfl, .stop next ?_⟩
      intro other connects'
      rw [connects] at connects'
      cases connects'
      exact weaker
    · rename_i strong
      rw [reaches_andThen] at reaches
      obtain ⟨form, _, middle, yields, reached, reaches⟩ := reaches
      have passed : stream.cursor < view.behind.cursor :=
        view.lt_behind (Lexeme.ne_endOfInput_of_binding? connects)
      have farther : stream.cursor < middle.cursor := Cursor.lt_trans passed reached
      obtain ⟨rfl, connection⟩ := reads_of_readConnected proper yields.reaches
      rw [reaches_weaken] at reaches
      obtain ⟨rfl, continuation⟩ := reads_of_continueExpression proper reaches
      exact ⟨rfl, .connect next connects (Nat.le_of_not_lt strong) connection continuation⟩
termination_by (stream.cursor.size, 0)
decreasing_by
  · exact Prod.Lex.left _ _ (Cursor.size_lt_of_lt passed)
  · exact Prod.Lex.left _ _ (Cursor.size_lt_of_lt farther)

theorem reads_of_readConnected
    {binding : Binding}
    {left : Expression}
    {modes after : ModeStack}
    {stream : TokenStream}
    {stop : Cursor}
    {form : ExpressionForm Expression}
    (proper : modes.frames ≠ [])
    (reaches : (readConnected binding left modes stream).Reaches form after stop) :
    after = modes ∧
      Reads modes.levels (.connection binding left form) stream.cursor stop := by
  rw [readConnected] at reaches
  obtain ⟨connective, leftPower, rightPower⟩ := binding
  split at reaches
  · rename_i operator connects
    cases connects
    rw [reaches_map] at reaches
    obtain ⟨operand, reaches, rfl⟩ := reaches
    obtain ⟨rfl, reads⟩ := reads_of_readExpression proper reaches
    exact ⟨rfl, .binary reads⟩
  · rename_i connects
    cases connects
    split at reaches
    · rename_i assignable
      rw [reaches_map] at reaches
      obtain ⟨value, reaches, rfl⟩ := reaches
      obtain ⟨rfl, reads⟩ := reads_of_readExpression proper reaches
      exact ⟨rfl, .assign assignable reads⟩
    · exact absurd reaches not_reaches_failure
  · rename_i connects
    cases connects
    rw [reaches_andThen] at reaches
    obtain ⟨ifTrue, _, middle, yields, reached, reaches⟩ := reaches
    obtain ⟨rfl, optional⟩ := reads_of_readExpressionUnless proper yields.reaches
    rw [reaches_andThen] at reaches
    obtain ⟨_, _, behind, yields, passed, reaches⟩ := reaches
    obtain ⟨rfl, colon⟩ := reaches_expect.mp yields.reaches
    have farther : stream.cursor < behind.cursor := Cursor.lt_of_le_of_lt reached passed
    rw [reaches_weaken, reaches_map] at reaches
    obtain ⟨ifFalse, reaches, rfl⟩ := reaches
    obtain ⟨rfl, reads⟩ := reads_of_readExpression proper reaches
    exact ⟨rfl, .ternary optional colon reads⟩
termination_by (stream.cursor.size, 5)
decreasing_by
  · exact Prod.Lex.right _ (by decide)
  · exact Prod.Lex.right _ (by decide)
  · exact Prod.Lex.right _ (by decide)
  · exact Prod.Lex.left _ _ (Cursor.size_lt_of_lt farther)

theorem reads_of_readExpressionUnless
    {kind : Symbol}
    {modes after : ModeStack}
    {stream : TokenStream}
    {stop : Cursor}
    {part : Option Expression}
    (proper : modes.frames ≠ [])
    (reaches : (readExpressionUnless kind modes stream).Reaches part after stop) :
    after = modes ∧ Reads modes.levels (.optional kind part) stream.cursor stop := by
  rw [readExpressionUnless, reaches_onLook] at reaches
  obtain ⟨view, looked, reaches⟩ := reaches
  have next := nextLexeme_of_look looked
  have here := view.here_cursor
  split at reaches
  · rename_i found
    obtain ⟨rfl, rfl, rfl⟩ := reaches_success.mp reaches
    rw [here]
    exact ⟨rfl, .absent (found ▸ next)⟩
  · rename_i other
    rw [reaches_weaken, reaches_map] at reaches
    obtain ⟨value, reaches, rfl⟩ := reaches
    obtain ⟨rfl, reads⟩ := reads_of_readExpression proper reaches
    rw [here] at reads
    exact ⟨rfl, .present next other reads⟩
termination_by (stream.cursor.size, 4)
decreasing_by
  rw [here]
  exact Prod.Lex.right _ (by decide)

theorem reads_of_readOperand
    {modes after : ModeStack}
    {stream : TokenStream}
    {stop : Cursor}
    {whole : Expression}
    (proper : modes.frames ≠ [])
    (reaches : (readOperand modes stream).Reaches whole after stop) :
    after = modes ∧ Reads modes.levels (.operand whole) stream.cursor stop := by
  rw [readOperand, reaches_onNextStart] at reaches
  obtain ⟨start, skipped, reached, reaches⟩ := reaches
  split at reaches
  · rename_i tag
    split at reaches
    · rename_i element modes' stop' passed read
      obtain ⟨rfl, rfl, rfl⟩ := reaches_success.mp reaches
      have follows : @DelegateBehind.FollowsRules start
          (fun modes inside _ =>
            (readExpression 0 modes (fresh stream.remembers inside)).toOutcome.weaken
              fun _ => Cursor.le_of_lt) := by
        intro modes inside ahead value after stop proper yields
        have fewer := Cursor.size_lt_of_lt (Cursor.lt_of_le_of_lt reached ahead)
        have reaches := yields_toOutcome_iff_reaches.mp (Outcome.yields_weaken.mp yields)
        exact reads_of_readExpression proper reaches
      obtain ⟨rfl, reads⟩ := reads_of_readElementBehind follows proper ⟨passed, read⟩
      exact ⟨rfl, .markup skipped tag reads⟩
    · exact absurd reaches not_reaches_failure
  · rename_i untagged
    have plain : startsMarkup start.rest = false := Bool.eq_false_iff.mpr untagged
    rw [reaches_onLook] at reaches
    obtain ⟨view, looked, reaches⟩ := reaches
    have next := nextLexeme_of_look looked
    have here := view.here_cursor
    split at reaches
    · rename_i found
      have passed := view.lt_behind_of_symbol found
      rw [reaches_andThen] at reaches
      obtain ⟨inner, _, behind, yields, _, reaches⟩ := reaches
      obtain ⟨rfl, reads⟩ := reads_of_readExpression proper yields.reaches
      obtain ⟨rfl, rfl, rfl⟩ := reaches_success.mp reaches
      exact ⟨rfl, .not skipped plain (found ▸ next) reads⟩
    · rename_i found
      have passed := view.lt_behind_of_symbol found
      rw [reaches_andThen] at reaches
      obtain ⟨inner, _, behind, yields, _, reaches⟩ := reaches
      obtain ⟨rfl, reads⟩ := reads_of_readExpression proper yields.reaches
      obtain ⟨rfl, rfl, rfl⟩ := reaches_success.mp reaches
      exact ⟨rfl, .negate skipped plain (found ▸ next) reads⟩
    · rename_i unNot unMinus
      rw [reaches_andThen] at reaches
      obtain ⟨base, _, behind, yields, passed, reaches⟩ := reaches
      obtain ⟨rfl, primary⟩ := reads_of_readPrimary proper yields.reaches
      have farther : stream.cursor < behind.cursor := here ▸ passed
      rw [here] at primary
      rw [reaches_weaken] at reaches
      obtain ⟨rfl, accesses⟩ := reads_of_continueOperand proper reaches
      exact ⟨rfl, .unsigned skipped plain next unNot unMinus primary accesses⟩
termination_by (stream.cursor.size, 2)
decreasing_by
  all_goals first
    | exact Prod.Lex.left _ _ fewer
    | exact Prod.Lex.left _ _ (Cursor.size_lt_of_lt passed)
    | exact Prod.Lex.left _ _ (Cursor.size_lt_of_lt farther)
    | rw [here]
      exact Prod.Lex.right _ (by decide)

theorem reads_of_readPrimary
    {modes after : ModeStack}
    {stream : TokenStream}
    {stop : Cursor}
    {whole : Expression}
    (proper : modes.frames ≠ [])
    (reaches : (readPrimary modes stream).Reaches whole after stop) :
    after = modes ∧ Reads modes.levels (.primary whole) stream.cursor stop := by
  rw [readPrimary, reaches_onNextStart] at reaches
  obtain ⟨start, skipped, reached, reaches⟩ := reaches
  rw [reaches_onLook] at reaches
  obtain ⟨view, looked, reaches⟩ := reaches
  have next := nextLexeme_of_look looked
  have leaf
      {form : ExpressionForm Expression}
      {passed : stream.cursor < view.behind.cursor}
      (isLeaf : view.token.lexeme.leaf? = some form)
      (stops : (success ⟨form, start.spanTo view.behind.cursor⟩ modes view.behind
        passed).Reaches whole after stop) :
      after = modes ∧ Reads modes.levels (.primary whole) stream.cursor stop := by
    obtain ⟨rfl, rfl, rfl⟩ := reaches_success.mp stops
    exact ⟨rfl, .leaf skipped next isLeaf⟩
  dsimp only at reaches
  split at reaches
  · rename_i found
    exact leaf (by rw [found]; rfl) reaches
  · rename_i found
    exact leaf (by rw [found]; rfl) reaches
  · rename_i found
    exact leaf (by rw [found]; rfl) reaches
  · rename_i found
    exact leaf (by rw [found]; rfl) reaches
  · rename_i text found
    have passed := view.lt_behind_of_word found
    rw [found] at next
    split at reaches
    · rename_i array
      rw [reaches_onLook] at reaches
      obtain ⟨view', looked', reaches⟩ := reaches
      have next' := nextLexeme_of_look looked'
      split at reaches
      · rename_i opened
        have farther : stream.cursor < view'.behind.cursor :=
          Cursor.lt_trans passed (view'.lt_behind_of_symbol opened)
        rw [reaches_andThen] at reaches
        obtain ⟨items, _, behind, yields, _, reaches⟩ := reaches
        obtain ⟨rfl, reads⟩ := reads_of_readEntries proper yields.reaches
        obtain ⟨rfl, rfl, rfl⟩ := reaches_success.mp reaches
        exact ⟨rfl, .arrayCall skipped next array (opened ▸ next') reads⟩
      · rename_i unopened
        obtain ⟨rfl, rfl, rfl⟩ := reaches_success.mp reaches
        rw [view'.here_cursor]
        exact ⟨rfl, .name skipped next fun _ => ⟨_, _, next', unopened⟩⟩
    · rename_i other
      obtain ⟨rfl, rfl, rfl⟩ := reaches_success.mp reaches
      exact ⟨rfl, .name skipped next fun array => absurd array other⟩
  · rename_i found
    have passed := view.lt_behind_of_symbol found
    rw [reaches_andThen] at reaches
    obtain ⟨items, _, behind, yields, _, reaches⟩ := reaches
    obtain ⟨rfl, reads⟩ := reads_of_readEntries proper yields.reaches
    obtain ⟨rfl, rfl, rfl⟩ := reaches_success.mp reaches
    exact ⟨rfl, .array skipped (found ▸ next) reads⟩
  · rename_i found
    have passed := view.lt_behind_of_word found
    rw [reaches_andThen] at reaches
    obtain ⟨form, _, behind, yields, _, reaches⟩ := reaches
    obtain ⟨rfl, reads⟩ := reads_of_readArrowFunction proper yields.reaches
    obtain ⟨rfl, rfl, rfl⟩ := reaches_success.mp reaches
    exact ⟨rfl, .function skipped (found ▸ next) reads⟩
  · rename_i found
    have passed := view.lt_behind_of_symbol found
    rw [reaches_andThen] at reaches
    obtain ⟨inner, _, behind, yields, _, reaches⟩ := reaches
    obtain ⟨rfl, reads⟩ := reads_of_readExpression proper yields.reaches
    rw [reaches_weaken, reaches_map] at reaches
    obtain ⟨_, reaches, rfl⟩ := reaches
    obtain ⟨rfl, closed⟩ := reaches_expect.mp reaches
    exact ⟨rfl, .parenthesized (found ▸ next) reads closed⟩
  · exact absurd reaches not_reaches_failure
termination_by (stream.cursor.size, 1)
decreasing_by
  · exact Prod.Lex.left _ _ (Cursor.size_lt_of_lt farther)
  · exact Prod.Lex.left _ _ (Cursor.size_lt_of_lt passed)
  · exact Prod.Lex.left _ _ (Cursor.size_lt_of_lt passed)
  · exact Prod.Lex.left _ _ (Cursor.size_lt_of_lt passed)

theorem reads_of_readArrowFunction
    {modes after : ModeStack}
    {stream : TokenStream}
    {stop : Cursor}
    {form : ExpressionForm Expression}
    (proper : modes.frames ≠ [])
    (reaches : (readArrowFunction modes stream).Reaches form after stop) :
    after = modes ∧ Reads modes.levels (.arrowFunction form) stream.cursor stop := by
  rw [readArrowFunction, reaches_andThen] at reaches
  obtain ⟨_, modes, opened, yields, passed, reaches⟩ := reaches
  obtain ⟨rfl, paren⟩ := reaches_expect.mp yields.reaches
  rw [reaches_andThen] at reaches
  obtain ⟨list, modes, closed, yields, passed', reaches⟩ := reaches
  have follows := @reads_of_readParameters _ _ _ _ modes.levels _ yields.reaches
  obtain ⟨rfl, parameters⟩ := follows
  rw [reaches_andThen] at reaches
  obtain ⟨_, modes, behind, yields, passed'', reaches⟩ := reaches
  obtain ⟨rfl, arrow⟩ := reaches_expect.mp yields.reaches
  have farther : stream.cursor < behind.cursor :=
    Cursor.lt_trans passed (Cursor.lt_trans passed' passed'')
  rw [reaches_weaken, reaches_map] at reaches
  obtain ⟨body, reaches, rfl⟩ := reaches
  obtain ⟨rfl, reads⟩ := reads_of_readExpression proper reaches
  exact ⟨rfl, .arrowFunction paren parameters arrow reads⟩
termination_by (stream.cursor.size, 4)
decreasing_by exact Prod.Lex.left _ _ (Cursor.size_lt_of_lt farther)

theorem reads_of_readEntries
    {close : Symbol}
    {keyed : Bool}
    {modes after : ModeStack}
    {stream : TokenStream}
    {stop : Cursor}
    {items : List (ArrayItem Expression)}
    (proper : modes.frames ≠ [])
    (reaches : (readEntries close keyed modes stream).Reaches items after stop) :
    after = modes ∧ Reads modes.levels (.entries close keyed items) stream.cursor stop := by
  rw [readEntries, reaches_onLook] at reaches
  obtain ⟨view, looked, reaches⟩ := reaches
  have next := nextLexeme_of_look looked
  have here := view.here_cursor
  split at reaches
  · rename_i found
    obtain ⟨rfl, rfl, rfl⟩ := reaches_success.mp reaches
    exact ⟨rfl, .noEntries (found ▸ next)⟩
  · rename_i other
    rw [reaches_onNextStart] at reaches
    obtain ⟨start, skipped, _, reaches⟩ := reaches
    rw [here] at skipped
    rw [reaches_andThen] at reaches
    obtain ⟨unpack, modes, first, yields, reached, reaches⟩ := reaches
    obtain ⟨rfl, dots⟩ := reaches_eat.mp yields.reaches
    have toFirst : stream.cursor ≤ first.cursor := here ▸ reached
    rw [here] at dots
    rw [reaches_andThen] at reaches
    obtain ⟨value, modes, valued, yields, toValued, reaches⟩ := reaches
    have passed : stream.cursor < valued.cursor := Cursor.lt_of_le_of_lt toFirst toValued
    obtain ⟨rfl, reads⟩ := reads_of_readExpression proper yields.reaches
    rw [reaches_andThen] at reaches
    obtain ⟨pair, modes, listed, yields, toListed, reaches⟩ := reaches
    obtain ⟨rfl, keyedOrPlain⟩ := reads_of_readKeyedValue proper yields.reaches
    rw [reaches_andThen] at reaches
    obtain ⟨more, modes, rest, yields, toRest, reaches⟩ := reaches
    obtain ⟨rfl, comma⟩ := reaches_eat.mp yields.reaches
    have entry : Reads modes.levels
        (.entry keyed ⟨pair.1, pair.2, unpack, start.spanTo listed.cursor⟩)
        stream.cursor listed.cursor := by
      cases keyedOrPlain with
      | inl plain =>
          obtain ⟨rfl, same, unarrowed⟩ := plain
          rw [same]
          exact .plainEntry skipped dots reads unarrowed
      | inr keyedValue =>
          obtain ⟨allowed, second, arrow, rfl, arrowed, readsSecond⟩ := keyedValue
          obtain ⟨isKeyed, notUnpack⟩ := (Bool.and_eq_true _ _).mp allowed
          obtain rfl : unpack = false := by simpa using notUnpack
          rw [isKeyed]
          have stays := dots.stays
          rw [stays] at dots reads
          exact .keyedEntry skipped dots reads arrowed readsSecond
    have farther : stream.cursor < rest.cursor :=
      Cursor.lt_of_lt_of_le (Cursor.lt_of_lt_of_le passed toListed) toRest
    split at reaches
    · rename_i continued
      rw [reaches_weaken, reaches_map] at reaches
      obtain ⟨others, reaches, rfl⟩ := reaches
      obtain ⟨rfl, readsOthers⟩ := reads_of_readEntries proper reaches
      exact ⟨rfl, .moreEntries next other entry (continued ▸ comma) readsOthers⟩
    · rename_i ended
      rw [reaches_weaken, reaches_map] at reaches
      obtain ⟨_, reaches, rfl⟩ := reaches
      obtain ⟨rfl, closed⟩ := reaches_expect.mp reaches
      obtain rfl : more = false := Bool.eq_false_iff.mpr ended
      have stays := comma.stays
      rw [stays] at comma closed
      exact ⟨rfl, .lastEntry next other entry comma closed⟩
termination_by (stream.cursor.size, 4)
decreasing_by
  · rcases Nat.lt_or_eq_of_le (Cursor.size_le_of_le toFirst) with less | same
    · exact Prod.Lex.left _ _ less
    · rw [same]
      exact Prod.Lex.right _ (by decide)
  · exact Prod.Lex.left _ _ (Cursor.size_lt_of_lt passed)
  · exact Prod.Lex.left _ _ (Cursor.size_lt_of_lt farther)

theorem reads_of_readKeyedValue
    {allowed : Bool}
    {first : Expression}
    {modes after : ModeStack}
    {stream : TokenStream}
    {stop : Cursor}
    {pair : Option Expression × Expression}
    (proper : modes.frames ≠ [])
    (reaches : (readKeyedValue allowed first modes stream).Reaches pair after stop) :
    after = modes ∧
      ((pair = (none, first) ∧ stop = stream.cursor ∧
          (allowed = true → MayTake .doubleArrow stream.cursor false stream.cursor)) ∨
        (allowed = true ∧ ∃ value behind, pair = (some first, value) ∧
          NextLexeme stream.cursor (.symbol .doubleArrow) behind ∧
          Reads modes.levels (.expression 0 value) behind stop)) := by
  rw [readKeyedValue] at reaches
  split at reaches
  · rename_i allowed
    rw [reaches_andThen] at reaches
    obtain ⟨keyed, _, behind, yields, reached, reaches⟩ := reaches
    obtain ⟨rfl, arrow⟩ := reaches_eat.mp yields.reaches
    split at reaches
    · rename_i arrowed
      rw [reaches_weaken, reaches_map] at reaches
      obtain ⟨value, reaches, rfl⟩ := reaches
      obtain ⟨rfl, reads⟩ := reads_of_readExpression proper reaches
      obtain rfl : keyed = true := arrowed
      cases arrow with
      | taken next => exact ⟨rfl, .inr ⟨allowed, value, behind.cursor, rfl, next, reads⟩⟩
    · rename_i unarrowed
      obtain ⟨rfl, rfl, rfl⟩ := reaches_success.mp reaches
      obtain rfl : keyed = false := Bool.eq_false_iff.mpr unarrowed
      have stays := arrow.stays
      rw [stays] at arrow
      exact ⟨rfl, .inl ⟨rfl, stays, fun _ => arrow⟩⟩
  · rename_i forbidden
    obtain ⟨rfl, rfl, rfl⟩ := reaches_success.mp reaches
    exact ⟨rfl, .inl ⟨rfl, rfl, fun allowed => absurd allowed forbidden⟩⟩
termination_by (stream.cursor.size, 4)
decreasing_by
  rcases Nat.lt_or_eq_of_le (Cursor.size_le_of_le reached) with less | same
  · exact Prod.Lex.left _ _ less
  · rw [same]
    exact Prod.Lex.right _ (by decide)

theorem reads_of_readMember
    {modes after : ModeStack}
    {stream : TokenStream}
    {stop : Cursor}
    {member : String × Option (List (Argument Expression))}
    (proper : modes.frames ≠ [])
    (reaches : (readMember modes stream).Reaches member after stop) :
    after = modes ∧ Reads modes.levels (.member member.1 member.2) stream.cursor stop := by
  rw [readMember, reaches_andThen] at reaches
  obtain ⟨name, _, named, yields, passed, reaches⟩ := reaches
  obtain ⟨rfl, kind, word⟩ := reaches_expectMemberName.mp yields.reaches
  rw [reaches_onLook] at reaches
  obtain ⟨view, looked, reaches⟩ := reaches
  have next := nextLexeme_of_look looked
  split at reaches
  · rename_i found
    have farther : stream.cursor < view.behind.cursor :=
      Cursor.lt_trans passed (view.lt_behind_of_symbol found)
    rw [reaches_weaken, reaches_map] at reaches
    obtain ⟨arguments, reaches, rfl⟩ := reaches
    rw [readArguments, reaches_map] at reaches
    obtain ⟨items, reaches, rfl⟩ := reaches
    obtain ⟨rfl, reads⟩ := reads_of_readEntries proper reaches
    exact ⟨rfl, .calledMember word (found ▸ next) reads⟩
  · rename_i uncalled
    obtain ⟨rfl, rfl, rfl⟩ := reaches_success.mp reaches
    rw [view.here_cursor]
    exact ⟨rfl, .plainMember word next uncalled⟩
termination_by (stream.cursor.size, 6)
decreasing_by exact Prod.Lex.left _ _ (Cursor.size_lt_of_lt farther)

theorem reads_of_continueOperand
    {start : Cursor}
    {base whole : Expression}
    {modes after : ModeStack}
    {stream : TokenStream}
    {stop : Cursor}
    (proper : modes.frames ≠ [])
    (reaches : (continueOperand start base modes stream).Reaches whole after stop) :
    after = modes ∧ Reads modes.levels (.accesses start base whole) stream.cursor stop := by
  rw [continueOperand, reaches_onLook] at reaches
  obtain ⟨view, looked, reaches⟩ := reaches
  have next := nextLexeme_of_look looked
  have goOn
      {accessed : StreamOutcome (stream.cursor < ·) (ExpressionForm Expression)}
      (access : ∀ form moved place, accessed.Reaches form moved place →
        moved = modes ∧ Reads modes.levels (.access base form) stream.cursor place)
      (onwards : (accessed.andThen fun form modes next passed =>
        (continueOperand start ⟨form, start.spanTo next.cursor⟩ modes next).weaken
          fun _ reached => Cursor.le_trans (Cursor.le_of_lt passed) reached).Reaches
            whole after stop) :
      after = modes ∧ Reads modes.levels (.accesses start base whole) stream.cursor stop := by
    rw [reaches_andThen] at onwards
    obtain ⟨form, moved, behind, yields, farther, onwards⟩ := onwards
    obtain ⟨rfl, access⟩ := access form moved behind.cursor yields.reaches
    rw [reaches_weaken] at onwards
    obtain ⟨rfl, rest⟩ := reads_of_continueOperand proper onwards
    exact ⟨rfl, .moreAccesses access rest⟩
  dsimp only at reaches
  split at reaches
  · rename_i found
    have passed := view.lt_behind_of_symbol found
    refine goOn (fun form moved place accessed => ?_) reaches
    rw [reaches_weaken, reaches_map] at accessed
    obtain ⟨member, accessed, rfl⟩ := accessed
    obtain ⟨rfl, reads⟩ := reads_of_readMember proper accessed
    rw [found] at next
    exact ⟨rfl, .memberAccess next reads⟩
  · rename_i found
    have passed := view.lt_behind_of_symbol found
    refine goOn (fun form moved place accessed => ?_) reaches
    rw [reaches_weaken, reaches_map] at accessed
    obtain ⟨member, accessed, rfl⟩ := accessed
    obtain ⟨rfl, reads⟩ := reads_of_readMember proper accessed
    rw [found] at next
    exact ⟨rfl, .memberAccess next reads⟩
  · rename_i found
    have passed := view.lt_behind_of_symbol found
    refine goOn (fun form moved place accessed => ?_) reaches
    rw [reaches_andThen] at accessed
    obtain ⟨index, _, middle, yields, _, accessed⟩ := accessed
    obtain ⟨rfl, optional⟩ := reads_of_readExpressionUnless proper yields.reaches
    rw [reaches_weaken, reaches_map] at accessed
    obtain ⟨_, accessed, rfl⟩ := accessed
    obtain ⟨rfl, closed⟩ := reaches_expect.mp accessed
    exact ⟨rfl, .entryAccess (found ▸ next) optional closed⟩
  · rename_i found
    have passed := view.lt_behind_of_symbol found
    split at reaches
    · rename_i callable
      refine goOn (fun form moved place accessed => ?_) reaches
      rw [reaches_weaken, reaches_map] at accessed
      obtain ⟨arguments, accessed, rfl⟩ := accessed
      rw [readArguments, reaches_map] at accessed
      obtain ⟨items, accessed, rfl⟩ := accessed
      obtain ⟨rfl, reads⟩ := reads_of_readEntries proper accessed
      exact ⟨rfl, .callAccess (found ▸ next) callable reads⟩
    · rename_i uncallable
      obtain ⟨rfl, rfl, rfl⟩ := reaches_success.mp reaches
      rw [view.here_cursor]
      refine ⟨rfl, .noAccess next ?_⟩
      rw [found]
      exact Bool.eq_false_iff.mpr uncallable
  · rename_i found
    have passed := view.lt_behind_of_symbol found
    split at reaches
    · rename_i isName
      refine goOn (fun form moved place accessed => ?_) reaches
      rw [reaches_weaken, reaches_map] at accessed
      obtain ⟨member, accessed, rfl⟩ := accessed
      obtain ⟨rfl, reads⟩ := reads_of_readMember proper accessed
      exact ⟨rfl, .staticAccess (found ▸ next) isName reads⟩
    · rename_i noName
      obtain ⟨rfl, rfl, rfl⟩ := reaches_success.mp reaches
      rw [view.here_cursor]
      refine ⟨rfl, .noAccess next ?_⟩
      rw [found]
      exact Bool.eq_false_iff.mpr noName
  · rename_i noArrow noNullsafe noBracket noParen noColon
    obtain ⟨rfl, rfl, rfl⟩ := reaches_success.mp reaches
    rw [view.here_cursor]
    refine ⟨rfl, .noAccess next ?_⟩
    unfold Lexeme.accesses
    split <;> first | rfl | (exfalso; simp_all)
termination_by (stream.cursor.size, 0)
decreasing_by
  all_goals first
    | exact Prod.Lex.left _ _ (Cursor.size_lt_of_lt passed)
    | exact Prod.Lex.left _ _ (Cursor.size_lt_of_lt farther)

end

variable {modes after : ModeStack}

theorem follows_hostBehind (remembers : Bool) (limit : Cursor) :
    (hostBehind remembers limit).FollowsRules := by
  intro modes start ahead value after stop proper yields
  have reaches := yields_toOutcome_iff_reaches.mp (Outcome.yields_weaken.mp yields)
  exact reads_of_readExpression proper reaches

/-- Elements whose holes hold host expressions are read by the rules. -/
theorem reads_of_readElement
    {start stop : Cursor}
    {element : Element Expression}
    (proper : modes.frames ≠ [])
    (yields : (readElement hostDelegate modes start).Yields element after stop) :
    after = modes ∧ Reads modes.levels (.element element) start stop :=
  reads_of_readElementBehind (follows_hostBehind true start) proper yields

/-- A text that is an expression is read by the rules, up to its end. -/
theorem reads_of_ofText
    {text : String}
    {budget : Nat}
    {whole : Expression}
    (read : Expression.ofText text budget = .ok whole) :
    ∃ stop behind, Reads budget (.expression 0 whole) (.ofText text) stop ∧
      NextLexeme stop .endOfInput behind := by
  unfold Expression.ofText at read
  split at read
  · cases read
  · rename_i expression modes stream reached found
    split at read
    · cases read
    · rename_i view looked
      split at read
      · rename_i ended
        cases read
        have yields : (readExpression 0 (.initial budget) (.fresh true (.ofText text))).Reaches
            whole modes stream.cursor := ⟨stream, ⟨reached, found⟩, rfl⟩
        obtain ⟨-, reads⟩ := reads_of_readExpression (by simp [ModeStack.initial]) yields
        exact ⟨stream.cursor, view.behind.cursor, reads, ended ▸ nextLexeme_of_look looked⟩
      · cases read

end EmbeddedMarkup
