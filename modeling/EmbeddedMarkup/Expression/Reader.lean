import EmbeddedMarkup.Expression.Outcome
import EmbeddedMarkup.Expression.Precedence
import EmbeddedMarkup.Markup.Reader

/-!
# Reading host expressions

An expression is an operand, with signs in front of it, followed by connectives and further
operands as their powers allow.  An operand is a literal, a name, a parenthesised expression or
an array, followed by accesses and calls; or it is markup.

Every nested expression is charged against the nesting budget while it is read, and given back
when it is done, whether it succeeded or not.  Markup is read by its own reader, which gets the
reader of expressions as its delegate for the text behind the `<`.

The readers call each other on streams with fewer characters ahead, or on the same stream in the
order of the second component of their measures.
-/

namespace EmbeddedMarkup

open TokenStream

/-- An array item without a key, as an argument. -/
def ArrayItem.toArgument (item : ArrayItem Expression) : Argument Expression :=
  ⟨item.value, item.unpack, item.span⟩

/-- The access to a member of an object. -/
def memberForm (object : Expression) (nullsafe : Bool) :
    String × Option (List (Argument Expression)) → ExpressionForm Expression
  | (name, some arguments) => .methodCall object name arguments nullsafe
  | (name, none) => .property object name nullsafe

/-- The access to a member of a class. -/
def staticMemberForm (owner : Expression) :
    String × Option (List (Argument Expression)) → ExpressionForm Expression
  | (name, some arguments) => .staticCall owner name arguments
  | (name, none) => .classConstant owner name

/-- The expression is a bare name, which may still become a class. -/
def Expression.isName (expression : Expression) : Bool :=
  match expression.form with
  | .bareName _ => true
  | _ => false

mutual

/-- Read an expression whose connectives bind to their left with `power` at least. -/
def readExpression (power : Nat) (modes : ModeStack) (stream : TokenStream) :
    StreamOutcome (stream.cursor < ·) Expression :=
  stream.onNextStart modes fun start _ =>
    match ModeStack.enterExpression start.position modes with
    | .error fault modes => .failure (Fault.ofMode fault) modes stream
    | .ok () modes =>
        ((readOperand modes stream).andThen fun left modes behind passed =>
          (continueExpression start power left modes behind).weaken
            fun _ => Cursor.lt_of_lt_of_le passed).mapModes ModeStack.exitExpression
termination_by (stream.cursor.size, 3)
decreasing_by
  · exact Prod.Lex.right _ (by decide)
  · exact Prod.Lex.left _ _ (Cursor.size_lt_of_lt passed)

/--
Read the connectives and operands behind `left`, as far as they bind with `power` at least.  The
expression starts at `start`.
-/
def continueExpression
    (start : Cursor)
    (power : Nat)
    (left : Expression)
    (modes : ModeStack)
    (stream : TokenStream) :
    StreamOutcome (stream.cursor ≤ ·) Expression :=
  stream.onLook modes fun view =>
    match connects : view.token.lexeme.binding? with
    | none => .success left modes view.here (view.here_cursor ▸ Cursor.le_refl _)
    | some binding =>
        if binding.left < power then
          .success left modes view.here (view.here_cursor ▸ Cursor.le_refl _)
        else
          have passed : stream.cursor < view.behind.cursor :=
            view.lt_behind (Lexeme.ne_endOfInput_of_binding? connects)
          (readConnected binding left modes view.behind).andThen fun form modes next reached =>
            have passed : stream.cursor < next.cursor := Cursor.lt_trans passed reached
            (continueExpression start power ⟨form, start.spanTo next.cursor⟩ modes next).weaken
              fun _ reached => Cursor.le_trans (Cursor.le_of_lt passed) reached
termination_by (stream.cursor.size, 0)
decreasing_by
  · exact Prod.Lex.left _ _ (Cursor.size_lt_of_lt passed)
  · exact Prod.Lex.left _ _ (Cursor.size_lt_of_lt passed)

/-- Read what a connective connects `left` with. -/
def readConnected
    (binding : Binding)
    (left : Expression)
    (modes : ModeStack)
    (stream : TokenStream) :
    StreamOutcome (stream.cursor < ·) (ExpressionForm Expression) :=
  match binding.connective with
  | .binary operator =>
      (readExpression binding.right modes stream).map (.binary operator left)
  | .assign =>
      if left.isAssignable then (readExpression binding.right modes stream).map (.assign left)
      else .failure (.grammar .notAssignable left.span) modes stream
  | .ternary =>
      (readExpressionUnless .colon modes stream).andThen fun ifTrue modes next reached =>
        (next.expect .colon modes).andThen fun _ modes next passed =>
          have passed : stream.cursor < next.cursor := Cursor.lt_of_le_of_lt reached passed
          ((readExpression binding.right modes next).map (.ternary left ifTrue)).weaken
            fun _ => Cursor.lt_trans passed
termination_by (stream.cursor.size, 5)
decreasing_by
  · exact Prod.Lex.right _ (by decide)
  · exact Prod.Lex.right _ (by decide)
  · exact Prod.Lex.right _ (by decide)
  · exact Prod.Lex.left _ _ (Cursor.size_lt_of_lt passed)

/-- Read an expression, unless a symbol is next that stands for its absence. -/
def readExpressionUnless (kind : Symbol) (modes : ModeStack) (stream : TokenStream) :
    StreamOutcome (stream.cursor ≤ ·) (Option Expression) :=
  stream.onLook modes fun view =>
    if view.token.lexeme = .symbol kind then
      .success none modes view.here (view.here_cursor ▸ Cursor.le_refl _)
    else
      ((readExpression 0 modes view.here).map some).weaken
        fun _ passed => Cursor.le_of_lt (view.here_cursor ▸ passed)
termination_by (stream.cursor.size, 4)
decreasing_by
  rw [view.here_cursor]
  exact Prod.Lex.right _ (by decide)

/-- Read an operand: markup, a signed operand, or a primary with what is done to it. -/
def readOperand (modes : ModeStack) (stream : TokenStream) :
    StreamOutcome (stream.cursor < ·) Expression :=
  stream.onNextStart modes fun start reached =>
    if startsMarkup start.rest then
      match readElementBehind
          (fun modes inside _ =>
            (readExpression 0 modes (fresh stream.remembers inside)).toOutcome.weaken
              fun _ => Cursor.le_of_lt)
          modes start start.le_refl with
      | .success element modes stop passed =>
          .success ⟨.markup element, start.spanTo stop⟩ modes (stream.moveTo stop)
            (Cursor.lt_of_le_of_lt reached passed)
      | .failure fault modes => .failure fault modes stream.forget
    else
      stream.onLook modes fun view =>
        match found : view.token.lexeme with
        | .symbol .not =>
            have passed := view.lt_behind_of_symbol found
            (readExpression signPower modes view.behind).andThen fun operand modes next read =>
              .success ⟨.not operand, start.spanTo next.cursor⟩ modes next
                (Cursor.lt_trans passed read)
        | .symbol .minus =>
            have passed := view.lt_behind_of_symbol found
            (readExpression signPower modes view.behind).andThen fun operand modes next read =>
              .success ⟨.negate operand, start.spanTo next.cursor⟩ modes next
                (Cursor.lt_trans passed read)
        | _ =>
            (readPrimary modes view.here).andThen fun primary modes next read =>
              have passed : stream.cursor < next.cursor := view.here_cursor ▸ read
              (continueOperand start primary modes next).weaken
                fun _ => Cursor.lt_of_lt_of_le passed
termination_by (stream.cursor.size, 2)
decreasing_by
  · exact Prod.Lex.left _ _
      (Cursor.size_lt_of_lt (Cursor.lt_of_le_of_lt reached (by assumption)))
  · exact Prod.Lex.left _ _ (Cursor.size_lt_of_lt passed)
  · exact Prod.Lex.left _ _ (Cursor.size_lt_of_lt passed)
  · rw [view.here_cursor]
    exact Prod.Lex.right _ (by decide)
  · exact Prod.Lex.left _ _ (Cursor.size_lt_of_lt passed)

/--
Read a literal, a name, an array, an arrow function or an expression in parentheses.  A token
that starts none of them is taken all the same.
-/
def readPrimary (modes : ModeStack) (stream : TokenStream) :
    StreamOutcome (stream.cursor < ·) Expression :=
  stream.onNextStart modes fun start _ =>
    stream.onLook modes fun view =>
      let leaf (form : ExpressionForm Expression) (more : view.token.lexeme ≠ .endOfInput) :
          StreamOutcome (stream.cursor < ·) Expression :=
        .success ⟨form, start.spanTo view.behind.cursor⟩ modes view.behind (view.lt_behind more)
      match found : view.token.lexeme with
      | .variable name => leaf (.variable name) (by simp [found])
      | .int value => leaf (.int value) (by simp [found])
      | .float value => leaf (.float value) (by simp [found])
      | .string value => leaf (.string value) (by simp [found])
      | .word .identifier text =>
          have passed := view.lt_behind_of_word found
          if sameWord text "array" then
            view.behind.onLook modes fun next =>
              if opened : next.token.lexeme = .symbol .leftParen then
                have passed : stream.cursor < next.behind.cursor :=
                  Cursor.lt_trans passed (next.lt_behind_of_symbol opened)
                (readEntries .rightParen true modes next.behind).andThen
                  fun items modes stop read =>
                    .success ⟨.array items, start.spanTo stop.cursor⟩ modes stop
                      (Cursor.lt_trans passed read)
              else
                .success ⟨.bareName text, start.spanTo next.here.cursor⟩ modes next.here
                  (next.here_cursor ▸ passed)
          else leaf (.bareName text) (by simp [found])
      | .symbol .leftBracket =>
          have passed := view.lt_behind_of_symbol found
          (readEntries .rightBracket true modes view.behind).andThen fun items modes stop read =>
            .success ⟨.array items, start.spanTo stop.cursor⟩ modes stop
              (Cursor.lt_trans passed read)
      | .word .fn _ =>
          have passed := view.lt_behind_of_word found
          (readArrowFunction modes view.behind).andThen fun form modes stop read =>
            .success ⟨form, start.spanTo stop.cursor⟩ modes stop (Cursor.lt_trans passed read)
      | .symbol .leftParen =>
          have passed := view.lt_behind_of_symbol found
          (readExpression 0 modes view.behind).andThen fun inner modes next read =>
            ((next.expect .rightParen modes).map fun _ => inner).weaken
              fun _ => Cursor.lt_trans (Cursor.lt_trans passed read)
      | lexeme => .failure (.grammar (.unexpected lexeme) view.token.span) modes view.behind
termination_by (stream.cursor.size, 1)
decreasing_by
  all_goals exact Prod.Lex.left _ _ (Cursor.size_lt_of_lt passed)

/-- Read an arrow function behind its keyword. -/
def readArrowFunction (modes : ModeStack) (stream : TokenStream) :
    StreamOutcome (stream.cursor < ·) (ExpressionForm Expression) :=
  (stream.expect .leftParen modes).andThen fun _ modes opened passed =>
    (opened.readParameters modes).andThen fun parameters modes closed read =>
      (closed.expect .doubleArrow modes).andThen fun _ modes body read' =>
        have passed : stream.cursor < body.cursor :=
          Cursor.lt_trans passed (Cursor.lt_trans read read')
        ((readExpression 0 modes body).map (.arrowFunction parameters)).weaken
          fun _ => Cursor.lt_trans passed
termination_by (stream.cursor.size, 4)
decreasing_by exact Prod.Lex.left _ _ (Cursor.size_lt_of_lt passed)

/--
Read entries with commas between them up to the symbol `close`, which may follow a comma.  Where
entries are `keyed`, one without an ellipsis may have a key.
-/
def readEntries (close : Symbol) (keyed : Bool) (modes : ModeStack) (stream : TokenStream) :
    StreamOutcome (stream.cursor < ·) (List (ArrayItem Expression)) :=
  stream.onLook modes fun view =>
    if found : view.token.lexeme = .symbol close then
      .success [] modes view.behind (view.lt_behind_of_symbol found)
    else
      view.here.onNextStart modes fun start _ =>
        (view.here.eat .ellipsis modes).andThen fun unpack modes first reached =>
          have reached : stream.cursor ≤ first.cursor := view.here_cursor ▸ reached
          (readExpression 0 modes first).andThen fun value modes next passed =>
            have passed : stream.cursor < next.cursor := Cursor.lt_of_le_of_lt reached passed
            (readKeyedValue (keyed && !unpack) value modes next).andThen
              fun pair modes next reached =>
                have passed : stream.cursor < next.cursor := Cursor.lt_of_lt_of_le passed reached
                let item : ArrayItem Expression :=
                  ⟨pair.1, pair.2, unpack, start.spanTo next.cursor⟩
                (next.eat .comma modes).andThen fun more modes next reached =>
                  have passed : stream.cursor < next.cursor :=
                    Cursor.lt_of_lt_of_le passed reached
                  if more then
                    ((readEntries close keyed modes next).map (item :: ·)).weaken
                      fun _ => Cursor.lt_trans passed
                  else
                    ((next.expect close modes).map fun _ => [item]).weaken
                      fun _ => Cursor.lt_trans passed
termination_by (stream.cursor.size, 4)
decreasing_by
  · rcases Nat.lt_or_eq_of_le (Cursor.size_le_of_le reached) with less | same
    · exact Prod.Lex.left _ _ less
    · rw [same]
      exact Prod.Lex.right _ (by decide)
  · exact Prod.Lex.left _ _ (Cursor.size_lt_of_lt passed)
  · exact Prod.Lex.left _ _ (Cursor.size_lt_of_lt passed)

/-- Read the value that the key `first` has, if there may be one and there is; the pair. -/
def readKeyedValue (allowed : Bool) (first : Expression) (modes : ModeStack)
    (stream : TokenStream) :
    StreamOutcome (stream.cursor ≤ ·) (Option Expression × Expression) :=
  if allowed then
    (stream.eat .doubleArrow modes).andThen fun keyed modes next reached =>
      if keyed then
        ((readExpression 0 modes next).map fun value => (some first, value)).weaken
          fun _ passed => Cursor.le_trans reached (Cursor.le_of_lt passed)
      else .success (none, first) modes next reached
  else .success (none, first) modes stream (Cursor.le_refl _)
termination_by (stream.cursor.size, 4)
decreasing_by
  rcases Nat.lt_or_eq_of_le (Cursor.size_le_of_le reached) with less | same
  · exact Prod.Lex.left _ _ less
  · rw [same]
    exact Prod.Lex.right _ (by decide)

/-- Read the arguments of a call behind its opening parenthesis. -/
def readArguments (modes : ModeStack) (stream : TokenStream) :
    StreamOutcome (stream.cursor < ·) (List (Argument Expression)) :=
  (readEntries .rightParen false modes stream).map (·.map ArrayItem.toArgument)
termination_by (stream.cursor.size, 5)
decreasing_by exact Prod.Lex.right _ (by decide)

/-- Read the name of a member, and its arguments if it is called. -/
def readMember (modes : ModeStack) (stream : TokenStream) :
    StreamOutcome (stream.cursor < ·) (String × Option (List (Argument Expression))) :=
  (stream.expectMemberName modes).andThen fun name modes next passed =>
    next.onLook modes fun view =>
      if found : view.token.lexeme = .symbol .leftParen then
        have passed : stream.cursor < view.behind.cursor :=
          Cursor.lt_trans passed (view.lt_behind_of_symbol found)
        ((readArguments modes view.behind).map fun arguments => (name, some arguments)).weaken
          fun _ => Cursor.lt_trans passed
      else .success (name, none) modes view.here (view.here_cursor ▸ passed)
termination_by (stream.cursor.size, 6)
decreasing_by exact Prod.Lex.left _ _ (Cursor.size_lt_of_lt passed)

/--
Read the accesses and calls behind `base`.  The operand starts at `start`.  A name that is left
alone stands for a constant.
-/
def continueOperand
    (start : Cursor)
    (base : Expression)
    (modes : ModeStack)
    (stream : TokenStream) :
    StreamOutcome (stream.cursor ≤ ·) Expression :=
  stream.onLook modes fun view =>
    let done : StreamOutcome (stream.cursor ≤ ·) Expression :=
      .success base.nameAsConstant modes view.here (view.here_cursor ▸ Cursor.le_refl _)
    let goOn
        (accessed : StreamOutcome (stream.cursor < ·) (ExpressionForm Expression)) :
        StreamOutcome (stream.cursor ≤ ·) Expression :=
      accessed.andThen fun form modes next passed =>
        (continueOperand start ⟨form, start.spanTo next.cursor⟩ modes next).weaken
          fun _ reached => Cursor.le_trans (Cursor.le_of_lt passed) reached
    match found : view.token.lexeme with
    | .symbol .arrow =>
        have passed := view.lt_behind_of_symbol found
        goOn (((readMember modes view.behind).map (memberForm base false)).weaken
          fun _ => Cursor.lt_trans passed)
    | .symbol .nullsafeArrow =>
        have passed := view.lt_behind_of_symbol found
        goOn (((readMember modes view.behind).map (memberForm base true)).weaken
          fun _ => Cursor.lt_trans passed)
    | .symbol .leftBracket =>
        have passed := view.lt_behind_of_symbol found
        goOn ((readExpressionUnless .rightBracket modes view.behind).andThen
          fun index modes next reached =>
            ((next.expect .rightBracket modes).map fun _ => .entry base index).weaken
              fun _ read => Cursor.lt_trans (Cursor.lt_of_lt_of_le passed reached) read)
    | .symbol .leftParen =>
        have passed := view.lt_behind_of_symbol found
        if base.isCallable then
          goOn (((readArguments modes view.behind).map (.call base)).weaken
            fun _ => Cursor.lt_trans passed)
        else done
    | .symbol .doubleColon =>
        have passed := view.lt_behind_of_symbol found
        if base.isName then
          goOn (((readMember modes view.behind).map (staticMemberForm base)).weaken
            fun _ => Cursor.lt_trans passed)
        else done
    | _ => done
termination_by (stream.cursor.size, 0)
decreasing_by
  all_goals exact Prod.Lex.left _ _ (Cursor.size_lt_of_lt passed)

end

end EmbeddedMarkup
