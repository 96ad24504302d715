import EmbeddedMarkup.Expression.Reader
import EmbeddedMarkup.Proofs.Expression.Steps
import EmbeddedMarkup.Proofs.Markup.Unfolding

/-!
# Unfolding the readers of host expressions

The readers of host expressions call themselves, each other and the readers of markup, which call
them back through their delegate.  As with markup, their bodies are written here over readers that
are given, and a body makes only calls of lower ranks than its own.

The loop that skips trivia and the one that takes parameters belong to no other loop, but are
treated alike.
-/

namespace EmbeddedMarkup

open TokenStream

/-! ## Congruence -/

section Congruence

variable {α β : Type} {P Q : Cursor → Prop} {stream : TokenStream} {modes : ModeStack}

theorem StreamOutcome.andThen_congr
    {outcome outcome' : StreamOutcome P α}
    {next next' : α → ModeStack → (stream : TokenStream) → P stream.cursor → StreamOutcome Q β}
    (first : outcome = outcome')
    (second : ∀ value modes stream reached,
      next value modes stream reached = next' value modes stream reached) :
    outcome.andThen next = outcome'.andThen next' := by
  subst first
  cases outcome with
  | success value modes stream reached => exact second value modes stream reached
  | failure fault modes stream => rfl

theorem TokenStream.onLook_congr
    {next next' : stream.View → StreamOutcome Q β}
    (same : ∀ view, next view = next' view) :
    stream.onLook modes next = stream.onLook modes next' := by
  rw [funext same]

theorem TokenStream.onNextStart_congr
    {next next' : (start : Cursor) → stream.cursor ≤ start → StreamOutcome Q β}
    (same : ∀ start reached, next start reached = next' start reached) :
    stream.onNextStart modes next = stream.onNextStart modes next' := by
  rw [funext fun start => funext (same start)]

end Congruence

/-! ## The readers and their bodies -/

/-- Readers to call in place of the readers that call themselves or each other. -/
@[ext]
structure HostReaders where
  markup : MarkupReaders Expression
  trivia (c : Cursor) : LexicalReading Unit
  parameters (stream : TokenStream) (modes : ModeStack) :
    StreamOutcome (stream.cursor < ·) (List Parameter)
  expression (power : Nat) (modes : ModeStack) (stream : TokenStream) :
    StreamOutcome (stream.cursor < ·) Expression
  continuation (start : Cursor) (power : Nat) (left : Expression) (modes : ModeStack)
    (stream : TokenStream) : StreamOutcome (stream.cursor ≤ ·) Expression
  connected (binding : Binding) (left : Expression) (modes : ModeStack) (stream : TokenStream) :
    StreamOutcome (stream.cursor < ·) (ExpressionForm Expression)
  expressionUnless (kind : Symbol) (modes : ModeStack) (stream : TokenStream) :
    StreamOutcome (stream.cursor ≤ ·) (Option Expression)
  operand (modes : ModeStack) (stream : TokenStream) :
    StreamOutcome (stream.cursor < ·) Expression
  primary (modes : ModeStack) (stream : TokenStream) :
    StreamOutcome (stream.cursor < ·) Expression
  arrowFunction (modes : ModeStack) (stream : TokenStream) :
    StreamOutcome (stream.cursor < ·) (ExpressionForm Expression)
  entries (close : Symbol) (keyed : Bool) (modes : ModeStack) (stream : TokenStream) :
    StreamOutcome (stream.cursor < ·) (List (ArrayItem Expression))
  keyedValue (allowed : Bool) (first : Expression) (modes : ModeStack) (stream : TokenStream) :
    StreamOutcome (stream.cursor ≤ ·) (Option Expression × Expression)
  arguments (modes : ModeStack) (stream : TokenStream) :
    StreamOutcome (stream.cursor < ·) (List (Argument Expression))
  member (modes : ModeStack) (stream : TokenStream) :
    StreamOutcome (stream.cursor < ·) (String × Option (List (Argument Expression)))
  accesses (start : Cursor) (base : Expression) (modes : ModeStack) (stream : TokenStream) :
    StreamOutcome (stream.cursor ≤ ·) Expression

namespace HostReaders

/-- The readers as they are. -/
def actual : HostReaders where
  markup := .actual
  trivia := skipTrivia
  parameters stream modes := stream.readParameters modes
  expression := readExpression
  continuation := continueExpression
  connected := readConnected
  expressionUnless := readExpressionUnless
  operand := readOperand
  primary := readPrimary
  arrowFunction := readArrowFunction
  entries := readEntries
  keyedValue := readKeyedValue
  arguments := readArguments
  member := readMember
  accesses := continueOperand

section Bodies

variable (readers : HostReaders) (modes : ModeStack) (stream : TokenStream)

/-- The body of `skipTrivia`. -/
def triviaBody (c : Cursor) : LexicalReading Unit :=
  match _found : CommentReading.ofChars c.skipBlanks.rest with
  | .absent => ⟨.ok (), c.skipBlanks⟩
  | .comment length => readers.trivia (c.skipBlanks.advanceBy length)
  | .unterminated =>
      let stop := c.skipBlanks.advanceBy c.skipBlanks.size
      ⟨.error ⟨.unterminatedComment, c.skipBlanks.spanTo stop⟩, stop⟩

/-- The body of `TokenStream.readParameters`. -/
def parametersBody : StreamOutcome (stream.cursor < ·) (List Parameter) :=
  stream.onLook modes fun view =>
    if found : view.token.lexeme = .symbol .rightParen then
      .success [] modes view.behind (view.lt_behind_of_symbol found)
    else
      let here := view.here
      have reached : stream ≤ here := view.le_here
      (here.eat .question modes).andThen fun _ modes typed read =>
        have reached : stream ≤ typed := le_trans reached read
        (typed.eatIdentifier modes).andThen fun _ modes named read =>
          have reached : stream ≤ named := le_trans reached read
          (named.expectVariable modes).andThen fun parameter modes listed read =>
            have passed : stream < listed := lt_of_le_of_lt reached read
            (listed.eat .comma modes).andThen fun more modes next reached =>
              have passed : stream < next := lt_of_lt_of_le passed reached
              if more then
                ((readers.parameters next modes).map (parameter :: ·)).weaken
                  (lt_of_cursor_lt passed)
              else
                ((next.expect .rightParen modes).map fun _ => [parameter]).weaken
                  (lt_of_cursor_lt passed)

/-- The body of `readExpression`. -/
def expressionBody (power : Nat) : StreamOutcome (stream.cursor < ·) Expression :=
  stream.onNextStart modes fun start _ =>
    match ModeStack.enterExpression start.position modes with
    | .error fault modes => .failure (Fault.ofMode fault) modes stream
    | .ok () modes =>
        ((readers.operand modes stream).andThen fun left modes behind passed =>
          (readers.continuation start power left modes behind).weaken
            (lt_of_cursor_le passed)).mapModes ModeStack.exitExpression

/-- The body of `continueExpression`. -/
def continuationBody (start : Cursor) (power : Nat) (left : Expression) :
    StreamOutcome (stream.cursor ≤ ·) Expression :=
  stream.onLook modes fun view =>
    match connects : view.token.lexeme.binding? with
    | none => .success left modes view.here view.le_here
    | some binding =>
        if binding.left < power then .success left modes view.here view.le_here
        else
          let behind := view.behind
          have passed : stream < behind := view.lt_behind_of_binding connects
          (readers.connected binding left modes behind).andThen fun form modes next read =>
            have passed : stream < next := lt_trans passed read
            (readers.continuation start power ⟨form, start.spanTo next.cursor⟩ modes next).weaken
              (le_of_cursor_le passed)

/-- The body of `readConnected`. -/
def connectedBody (binding : Binding) (left : Expression) :
    StreamOutcome (stream.cursor < ·) (ExpressionForm Expression) :=
  match binding.connective with
  | .binary operator =>
      (readers.expression binding.right modes stream).map (.binary operator left)
  | .assign =>
      if left.isAssignable then
        (readers.expression binding.right modes stream).map (.assign left)
      else .failure (.grammar .notAssignable left.span) modes stream
  | .ternary =>
      (readers.expressionUnless .colon modes stream).andThen fun ifTrue modes next reached =>
        (next.expect .colon modes).andThen fun _ modes next read =>
          have passed : stream < next := lt_of_le_of_lt reached read
          ((readers.expression binding.right modes next).map (.ternary left ifTrue)).weaken
            (lt_of_cursor_lt passed)

/-- The body of `readExpressionUnless`. -/
def expressionUnlessBody (kind : Symbol) :
    StreamOutcome (stream.cursor ≤ ·) (Option Expression) :=
  stream.onLook modes fun view =>
    if view.token.lexeme = .symbol kind then
      .success none modes view.here view.le_here
    else
      let here := view.here
      have reached : stream ≤ here := view.le_here
      ((readers.expression 0 modes here).map some).weaken (le_of_cursor_lt reached)

/-- What reads expressions for markup behind a cursor. -/
def delegate (remembers : Bool) (limit : Cursor) : DelegateBehind Expression limit :=
  fun modes inside _ =>
    (readers.expression 0 modes (fresh remembers inside)).toOutcome.weaken
      (fresh_le_of_lt remembers inside)

/-- The body of `readOperand`. -/
def operandBody : StreamOutcome (stream.cursor < ·) Expression :=
  stream.onNextStart modes fun start reached =>
    if startsMarkup start.rest then
      match readers.markup.element start (readers.delegate stream.remembers start) modes start
          start.le_refl with
      | .success element modes stop passed =>
          .success ⟨.markup element, start.spanTo stop⟩ modes (stream.moveTo stop)
            (lt_moveTo reached passed)
      | .failure fault modes => .failure fault modes stream.forget
    else
      stream.onLook modes fun view =>
        match found : view.token.lexeme with
        | .symbol .not =>
            let behind := view.behind
            have passed : stream < behind := view.lt_behind_of_symbol found
            (readers.expression signPower modes behind).andThen fun operand modes next read =>
              have passed : stream < next := lt_trans passed read
              .success ⟨.not operand, start.spanTo next.cursor⟩ modes next passed
        | .symbol .minus =>
            let behind := view.behind
            have passed : stream < behind := view.lt_behind_of_symbol found
            (readers.expression signPower modes behind).andThen fun operand modes next read =>
              have passed : stream < next := lt_trans passed read
              .success ⟨.negate operand, start.spanTo next.cursor⟩ modes next passed
        | _ =>
            let here := view.here
            have reached : stream ≤ here := view.le_here
            (readers.primary modes here).andThen fun primary modes next read =>
              have passed : stream < next := lt_of_le_of_lt reached read
              (readers.accesses start primary modes next).weaken (lt_of_cursor_le passed)

/-- The body of `readPrimary`. -/
def primaryBody : StreamOutcome (stream.cursor < ·) Expression :=
  stream.onNextStart modes fun start _ =>
    stream.onLook modes fun view =>
      let behind := view.behind
      let leaf (form : ExpressionForm Expression) (passed : stream.cursor < behind.cursor) :
          StreamOutcome (stream.cursor < ·) Expression :=
        .success ⟨form, start.spanTo behind.cursor⟩ modes behind passed
      match found : view.token.lexeme with
      | .variable name => leaf (.variable name) (view.lt_behind_of_variable found)
      | .int value => leaf (.int value) (view.lt_behind_of_int found)
      | .float value => leaf (.float value) (view.lt_behind_of_float found)
      | .string value => leaf (.string value) (view.lt_behind_of_string found)
      | .word .identifier text =>
          have passed : stream < behind := view.lt_behind_of_word found
          if sameWord text "array" then
            behind.onLook modes fun next =>
              if opened : next.token.lexeme = .symbol .leftParen then
                let inside := next.behind
                have entered : behind < inside := next.lt_behind_of_symbol opened
                have passed : stream < inside := lt_trans passed entered
                (readers.entries .rightParen true modes inside).andThen
                  fun items modes stop read =>
                    have passed : stream < stop := lt_trans passed read
                    .success ⟨.array items, start.spanTo stop.cursor⟩ modes stop passed
              else
                let here := next.here
                have reached : behind ≤ here := next.le_here
                have passed : stream < here := lt_of_lt_of_le passed reached
                .success ⟨.bareName text, start.spanTo here.cursor⟩ modes here passed
          else leaf (.bareName text) passed
      | .symbol .leftBracket =>
          have passed : stream < behind := view.lt_behind_of_symbol found
          (readers.entries .rightBracket true modes behind).andThen fun items modes stop read =>
            have passed : stream < stop := lt_trans passed read
            .success ⟨.array items, start.spanTo stop.cursor⟩ modes stop passed
      | .word .fn _ =>
          have passed : stream < behind := view.lt_behind_of_word found
          (readers.arrowFunction modes behind).andThen fun form modes stop read =>
            have passed : stream < stop := lt_trans passed read
            .success ⟨form, start.spanTo stop.cursor⟩ modes stop passed
      | .symbol .leftParen =>
          have passed : stream < behind := view.lt_behind_of_symbol found
          (readers.expression 0 modes behind).andThen fun inner modes next read =>
            have passed : stream < next := lt_trans passed read
            ((next.expect .rightParen modes).map fun _ => inner).weaken (lt_of_cursor_lt passed)
      | lexeme => .failure (.grammar (.unexpected lexeme) view.token.span) modes view.behind

/-- The body of `readArrowFunction`. -/
def arrowFunctionBody : StreamOutcome (stream.cursor < ·) (ExpressionForm Expression) :=
  (stream.expect .leftParen modes).andThen fun _ modes opened passed =>
    (readers.parameters opened modes).andThen fun parameters modes closed read =>
      have passed : stream < closed := lt_trans passed read
      (closed.expect .doubleArrow modes).andThen fun _ modes body read =>
        have passed : stream < body := lt_trans passed read
        ((readers.expression 0 modes body).map (.arrowFunction parameters)).weaken
          (lt_of_cursor_lt passed)

/-- The body of `readEntries`. -/
def entriesBody (close : Symbol) (keyed : Bool) :
    StreamOutcome (stream.cursor < ·) (List (ArrayItem Expression)) :=
  stream.onLook modes fun view =>
    if found : view.token.lexeme = .symbol close then
      .success [] modes view.behind (view.lt_behind_of_symbol found)
    else
      let here := view.here
      have reached : stream ≤ here := view.le_here
      here.onNextStart modes fun start _ =>
        (here.eat .ellipsis modes).andThen fun unpack modes first read =>
          have reached : stream ≤ first := le_trans reached read
          (readers.expression 0 modes first).andThen fun value modes next read =>
            have passed : stream < next := lt_of_le_of_lt reached read
            (readers.keyedValue (keyed && !unpack) value modes next).andThen
              fun pair modes next read =>
                have passed : stream < next := lt_of_lt_of_le passed read
                let item : ArrayItem Expression :=
                  ⟨pair.1, pair.2, unpack, start.spanTo next.cursor⟩
                (next.eat .comma modes).andThen fun more modes next read =>
                  have passed : stream < next := lt_of_lt_of_le passed read
                  if more then
                    ((readers.entries close keyed modes next).map (item :: ·)).weaken
                      (lt_of_cursor_lt passed)
                  else
                    ((next.expect close modes).map fun _ => [item]).weaken
                      (lt_of_cursor_lt passed)

/-- The body of `readKeyedValue`. -/
def keyedValueBody (allowed : Bool) (first : Expression) :
    StreamOutcome (stream.cursor ≤ ·) (Option Expression × Expression) :=
  if allowed then
    (stream.eat .doubleArrow modes).andThen fun keyed modes next reached =>
      if keyed then
        ((readers.expression 0 modes next).map fun value => (some first, value)).weaken
          (le_of_cursor_lt reached)
      else .success (none, first) modes next reached
  else .success (none, first) modes stream (le_refl stream)

/-- The body of `readArguments`. -/
def argumentsBody : StreamOutcome (stream.cursor < ·) (List (Argument Expression)) :=
  (readers.entries .rightParen false modes stream).map (·.map ArrayItem.toArgument)

/-- The body of `readMember`. -/
def memberBody :
    StreamOutcome (stream.cursor < ·) (String × Option (List (Argument Expression))) :=
  (stream.expectMemberName modes).andThen fun name modes next passed =>
    next.onLook modes fun view =>
      if found : view.token.lexeme = .symbol .leftParen then
        let behind := view.behind
        have entered : next < behind := view.lt_behind_of_symbol found
        have passed : stream < behind := lt_trans passed entered
        ((readers.arguments modes behind).map fun arguments => (name, some arguments)).weaken
          (lt_of_cursor_lt passed)
      else
        let here := view.here
        have reached : next ≤ here := view.le_here
        have passed : stream < here := lt_of_lt_of_le passed reached
        .success (name, none) modes here passed

/-- The body of `continueOperand`. -/
def accessesBody (start : Cursor) (base : Expression) :
    StreamOutcome (stream.cursor ≤ ·) Expression :=
  stream.onLook modes fun view =>
    let behind := view.behind
    let done : StreamOutcome (stream.cursor ≤ ·) Expression :=
      .success base.nameAsConstant modes view.here view.le_here
    let goOn
        (accessed : StreamOutcome (stream.cursor < ·) (ExpressionForm Expression)) :
        StreamOutcome (stream.cursor ≤ ·) Expression :=
      accessed.andThen fun form modes next passed =>
        (readers.accesses start ⟨form, start.spanTo next.cursor⟩ modes next).weaken
          (le_of_cursor_le passed)
    match found : view.token.lexeme with
    | .symbol .arrow =>
        have passed : stream < behind := view.lt_behind_of_symbol found
        goOn (((readers.member modes behind).map (memberForm base false)).weaken
          (lt_of_cursor_lt passed))
    | .symbol .nullsafeArrow =>
        have passed : stream < behind := view.lt_behind_of_symbol found
        goOn (((readers.member modes behind).map (memberForm base true)).weaken
          (lt_of_cursor_lt passed))
    | .symbol .leftBracket =>
        have passed : stream < behind := view.lt_behind_of_symbol found
        goOn ((readers.expressionUnless .rightBracket modes behind).andThen
          fun index modes next read =>
            have passed : stream < next := lt_of_lt_of_le passed read
            ((next.expect .rightBracket modes).map fun _ => .entry base index).weaken
              (lt_of_cursor_lt passed))
    | .symbol .leftParen =>
        have passed : stream < behind := view.lt_behind_of_symbol found
        if base.isCallable then
          goOn (((readers.arguments modes behind).map (.call base)).weaken
            (lt_of_cursor_lt passed))
        else done
    | .symbol .doubleColon =>
        have passed : stream < behind := view.lt_behind_of_symbol found
        if base.isName then
          goOn (((readers.member modes behind).map (staticMemberForm base)).weaken
            (lt_of_cursor_lt passed))
        else done
    | _ => done

end Bodies

/-- The bodies of the readers, with their calls going to the given readers. -/
def unfold (readers : HostReaders) : HostReaders where
  markup := readers.markup.unfold
  trivia := readers.triviaBody
  parameters stream modes := readers.parametersBody modes stream
  expression power modes stream := readers.expressionBody modes stream power
  continuation start power left modes stream :=
    readers.continuationBody modes stream start power left
  connected binding left modes stream := readers.connectedBody modes stream binding left
  expressionUnless kind modes stream := readers.expressionUnlessBody modes stream kind
  operand := readers.operandBody
  primary := readers.primaryBody
  arrowFunction := readers.arrowFunctionBody
  entries close keyed modes stream := readers.entriesBody modes stream close keyed
  keyedValue allowed first modes stream := readers.keyedValueBody modes stream allowed first
  arguments := readers.argumentsBody
  member := readers.memberBody
  accesses start base modes stream := readers.accessesBody modes stream start base

/-- The readers answer the equations that their bodies make. -/
theorem unfold_actual : actual.unfold = actual := by
  unfold unfold
  conv => rhs; unfold actual
  rw [mk.injEq]
  refine ⟨MarkupReaders.unfold_actual, ?_, ?_, ?_, ?_, ?_, ?_, ?_, ?_, ?_, ?_, ?_, ?_, ?_, ?_⟩
  · funext c
    rw [skipTrivia]
    rfl
  · funext stream modes
    rw [readParameters]
    rfl
  · funext power modes stream
    rw [readExpression]
    rfl
  · funext start power left modes stream
    rw [continueExpression]
    rfl
  · funext binding left modes stream
    rw [readConnected]
    rfl
  · funext kind modes stream
    rw [readExpressionUnless]
    rfl
  · funext modes stream
    rw [readOperand]
    rfl
  · funext modes stream
    rw [readPrimary]
    rfl
  · funext modes stream
    rw [readArrowFunction]
    rfl
  · funext close keyed modes stream
    rw [readEntries]
    rfl
  · funext allowed first modes stream
    rw [readKeyedValue]
    rfl
  · funext modes stream
    rw [readArguments]
    rfl
  · funext modes stream
    rw [readMember]
    rfl
  · funext start base modes stream
    rw [continueOperand]
    rfl

/-- Reading an element, with its expressions read by the delegate that the readers make. -/
def readElement (readers : HostReaders) (modes : ModeStack) (start : Cursor) :
    Outcome (start < ·) (Element Expression) :=
  readers.markup.element start (readers.delegate true start) modes start start.le_refl

/-! ## Agreement below a rank -/

/-- The readers give the same outcomes in all calls of ranks below `bound`. -/
structure AgreeBelow (bound : Nat) (readers readers' : HostReaders) : Prop where
  markup : readers.markup.AgreeBelow bound readers'.markup
  trivia : ∀ c, c.rank 0 < bound → readers.trivia c = readers'.trivia c
  parameters : ∀ stream modes, stream.cursor.rank 0 < bound →
    readers.parameters stream modes = readers'.parameters stream modes
  expression : ∀ power modes stream, stream.cursor.rank 3 < bound →
    readers.expression power modes stream = readers'.expression power modes stream
  continuation : ∀ start power left modes stream, stream.cursor.rank 0 < bound →
    readers.continuation start power left modes stream =
      readers'.continuation start power left modes stream
  connected : ∀ binding left modes stream, stream.cursor.rank 5 < bound →
    readers.connected binding left modes stream = readers'.connected binding left modes stream
  expressionUnless : ∀ kind modes stream, stream.cursor.rank 4 < bound →
    readers.expressionUnless kind modes stream = readers'.expressionUnless kind modes stream
  operand : ∀ modes stream, stream.cursor.rank 2 < bound →
    readers.operand modes stream = readers'.operand modes stream
  primary : ∀ modes stream, stream.cursor.rank 1 < bound →
    readers.primary modes stream = readers'.primary modes stream
  arrowFunction : ∀ modes stream, stream.cursor.rank 4 < bound →
    readers.arrowFunction modes stream = readers'.arrowFunction modes stream
  entries : ∀ close keyed modes stream, stream.cursor.rank 4 < bound →
    readers.entries close keyed modes stream = readers'.entries close keyed modes stream
  keyedValue : ∀ allowed first modes stream, stream.cursor.rank 4 < bound →
    readers.keyedValue allowed first modes stream =
      readers'.keyedValue allowed first modes stream
  arguments : ∀ modes stream, stream.cursor.rank 5 < bound →
    readers.arguments modes stream = readers'.arguments modes stream
  member : ∀ modes stream, stream.cursor.rank 6 < bound →
    readers.member modes stream = readers'.member modes stream
  accesses : ∀ start base modes stream, stream.cursor.rank 0 < bound →
    readers.accesses start base modes stream = readers'.accesses start base modes stream

namespace AgreeBelow

variable {bound : Nat} {readers readers' : HostReaders} {modes : ModeStack}
  {stream : TokenStream}

/-- There is no call below rank zero. -/
theorem zero (readers readers' : HostReaders) : AgreeBelow 0 readers readers' := by
  constructor
  case markup => exact .zero _ _
  all_goals
    intros
    exact absurd ‹_ < 0› (Nat.not_lt_zero _)

variable (agree : AgreeBelow bound readers readers')

include agree

theorem triviaBody {c : Cursor} (enough : c.rank 0 < bound + 1) :
    readers.triviaBody c = readers'.triviaBody c := by
  unfold HostReaders.triviaBody
  split
  · rfl
  · rename_i length found
    have moves := CommentReading.length_pos found
    have passed : c < c.skipBlanks.advanceBy length :=
      Cursor.lt_of_le_of_lt c.le_skipBlanks (Cursor.lt_advanceBy moves.1 moves.2)
    exact agree.trivia _ (Cursor.rank_lt_of_lt enough passed (by decide))
  · rfl

theorem parametersBody (enough : stream.cursor.rank 0 < bound + 1) :
    readers.parametersBody modes stream = readers'.parametersBody modes stream := by
  refine onLook_congr fun view => ?_
  split
  · rfl
  · refine StreamOutcome.andThen_congr rfl fun _ modes typed read => ?_
    have reached := Cursor.le_trans view.le_here read
    refine StreamOutcome.andThen_congr rfl fun _ modes named read => ?_
    have reached := Cursor.le_trans reached read
    refine StreamOutcome.andThen_congr rfl fun parameter modes listed read => ?_
    have passed := Cursor.lt_of_le_of_lt reached read
    refine StreamOutcome.andThen_congr rfl fun more modes next read => ?_
    have passed := Cursor.lt_of_lt_of_le passed read
    dsimp only
    rw [agree.parameters _ _ (Cursor.rank_lt_of_lt enough passed (by decide))]

theorem expressionBody {power : Nat} (enough : stream.cursor.rank 3 < bound + 1) :
    readers.expressionBody modes stream power = readers'.expressionBody modes stream power := by
  refine onNextStart_congr fun start _ => ?_
  split
  · rfl
  · refine congrArg _ (StreamOutcome.andThen_congr ?_ fun left modes behind passed => ?_)
    · exact agree.operand _ _ (Cursor.rank_lt_of_le enough (Cursor.le_refl _) (by decide))
    · rw [agree.continuation _ _ _ _ _ (Cursor.rank_lt_of_lt enough passed (by decide))]

theorem continuationBody
    {start : Cursor}
    {power : Nat}
    {left : Expression}
    (enough : stream.cursor.rank 0 < bound + 1) :
    readers.continuationBody modes stream start power left =
      readers'.continuationBody modes stream start power left := by
  refine onLook_congr fun view => ?_
  split
  · rfl
  · rename_i binding connects
    split
    · rfl
    · have passed := view.lt_behind_of_binding connects
      refine StreamOutcome.andThen_congr ?_ fun form modes next read => ?_
      · exact agree.connected _ _ _ _ (Cursor.rank_lt_of_lt enough passed (by decide))
      · have passed := Cursor.lt_trans passed read
        rw [agree.continuation _ _ _ _ _ (Cursor.rank_lt_of_lt enough passed (by decide))]

theorem connectedBody
    {binding : Binding}
    {left : Expression}
    (enough : stream.cursor.rank 5 < bound + 1) :
    readers.connectedBody modes stream binding left =
      readers'.connectedBody modes stream binding left := by
  have here := Cursor.le_refl stream.cursor
  unfold HostReaders.connectedBody
  split
  · rw [agree.expression _ _ _ (Cursor.rank_lt_of_le enough here (by decide))]
  · rw [agree.expression _ _ _ (Cursor.rank_lt_of_le enough here (by decide))]
  · refine StreamOutcome.andThen_congr ?_ fun ifTrue modes next reached => ?_
    · exact agree.expressionUnless _ _ _ (Cursor.rank_lt_of_le enough here (by decide))
    · refine StreamOutcome.andThen_congr rfl fun _ modes next read => ?_
      have passed := Cursor.lt_of_le_of_lt reached read
      rw [agree.expression _ _ _ (Cursor.rank_lt_of_lt enough passed (by decide))]

theorem expressionUnlessBody {kind : Symbol} (enough : stream.cursor.rank 4 < bound + 1) :
    readers.expressionUnlessBody modes stream kind =
      readers'.expressionUnlessBody modes stream kind := by
  refine onLook_congr fun view => ?_
  dsimp only
  rw [agree.expression _ _ _ (Cursor.rank_lt_of_le enough view.le_here (by decide))]

/-- Markup is given the same answers, as it asks only behind its start. -/
theorem delegate {remembers : Bool} {limit : Cursor} (enough : limit.rank 2 < bound + 1) :
    readers.delegate remembers limit = readers'.delegate remembers limit := by
  funext modes inside ahead
  have passed : limit < (TokenStream.fresh remembers inside).cursor := ahead
  unfold HostReaders.delegate
  rw [agree.expression _ _ _ (Cursor.rank_lt_of_lt enough passed (by decide))]

theorem readElement {start : Cursor} (enough : start.rank 2 < bound) :
    readers.readElement modes start = readers'.readElement modes start := by
  have first : start.rank 0 < bound := by
    unfold Cursor.rank at enough ⊢
    omega
  unfold HostReaders.readElement
  rw [agree.delegate (Nat.lt_succ_of_lt enough), agree.markup.element _ _ _ _ _ first]

theorem operandBody (enough : stream.cursor.rank 2 < bound + 1) :
    readers.operandBody modes stream = readers'.operandBody modes stream := by
  refine onNextStart_congr fun start reached => ?_
  split
  · have farther : start.rank 2 < bound + 1 := by
      have fewer := Cursor.size_le_of_le reached
      unfold Cursor.rank at enough ⊢
      omega
    rw [agree.delegate farther,
      agree.markup.element _ _ _ _ _ (Cursor.rank_lt_of_le enough reached (by decide))]
  · refine onLook_congr fun view => ?_
    dsimp only
    split
    · rename_i found
      have passed := view.lt_behind_of_symbol found
      rw [agree.expression _ _ _ (Cursor.rank_lt_of_lt enough passed (by decide))]
    · rename_i found
      have passed := view.lt_behind_of_symbol found
      rw [agree.expression _ _ _ (Cursor.rank_lt_of_lt enough passed (by decide))]
    · refine StreamOutcome.andThen_congr ?_ fun primary modes next read => ?_
      · exact agree.primary _ _ (Cursor.rank_lt_of_le enough view.le_here (by decide))
      · have passed := Cursor.lt_of_le_of_lt view.le_here read
        rw [agree.accesses _ _ _ _ (Cursor.rank_lt_of_lt enough passed (by decide))]

theorem primaryBody (enough : stream.cursor.rank 1 < bound + 1) :
    readers.primaryBody modes stream = readers'.primaryBody modes stream := by
  refine onNextStart_congr fun start _ => onLook_congr fun view => ?_
  dsimp only
  split <;> try rfl
  · rename_i found
    have passed := view.lt_behind_of_word found
    split
    · refine onLook_congr fun next => ?_
      split
      · rename_i opened
        have passed := Cursor.lt_trans passed (next.lt_behind_of_symbol opened)
        rw [agree.entries _ _ _ _ (Cursor.rank_lt_of_lt enough passed (by decide))]
      · rfl
    · rfl
  · rename_i found
    have passed := view.lt_behind_of_symbol found
    rw [agree.entries _ _ _ _ (Cursor.rank_lt_of_lt enough passed (by decide))]
  · rename_i found
    have passed := view.lt_behind_of_word found
    rw [agree.arrowFunction _ _ (Cursor.rank_lt_of_lt enough passed (by decide))]
  · rename_i found
    have passed := view.lt_behind_of_symbol found
    rw [agree.expression _ _ _ (Cursor.rank_lt_of_lt enough passed (by decide))]

theorem arrowFunctionBody (enough : stream.cursor.rank 4 < bound + 1) :
    readers.arrowFunctionBody modes stream = readers'.arrowFunctionBody modes stream := by
  refine StreamOutcome.andThen_congr rfl fun _ modes opened passed => ?_
  refine StreamOutcome.andThen_congr ?_ fun parameters modes closed read => ?_
  · exact agree.parameters _ _ (Cursor.rank_lt_of_lt enough passed (by decide))
  · have passed := Cursor.lt_trans passed read
    refine StreamOutcome.andThen_congr rfl fun _ modes body read => ?_
    have passed := Cursor.lt_trans passed read
    rw [agree.expression _ _ _ (Cursor.rank_lt_of_lt enough passed (by decide))]

theorem entriesBody
    {close : Symbol}
    {keyed : Bool}
    (enough : stream.cursor.rank 4 < bound + 1) :
    readers.entriesBody modes stream close keyed =
      readers'.entriesBody modes stream close keyed := by
  refine onLook_congr fun view => ?_
  split
  · rfl
  refine onNextStart_congr fun start _ => ?_
  refine StreamOutcome.andThen_congr rfl fun unpack modes first read => ?_
  have reached := Cursor.le_trans view.le_here read
  refine StreamOutcome.andThen_congr ?_ fun value modes next read => ?_
  · exact agree.expression _ _ _ (Cursor.rank_lt_of_le enough reached (by decide))
  have passed := Cursor.lt_of_le_of_lt reached read
  refine StreamOutcome.andThen_congr ?_ fun pair modes next read => ?_
  · exact agree.keyedValue _ _ _ _ (Cursor.rank_lt_of_lt enough passed (by decide))
  have passed := Cursor.lt_of_lt_of_le passed read
  refine StreamOutcome.andThen_congr rfl fun more modes next read => ?_
  have passed := Cursor.lt_of_lt_of_le passed read
  dsimp only
  rw [agree.entries _ _ _ _ (Cursor.rank_lt_of_lt enough passed (by decide))]

theorem keyedValueBody
    {allowed : Bool}
    {first : Expression}
    (enough : stream.cursor.rank 4 < bound + 1) :
    readers.keyedValueBody modes stream allowed first =
      readers'.keyedValueBody modes stream allowed first := by
  unfold HostReaders.keyedValueBody
  split
  · refine StreamOutcome.andThen_congr rfl fun keyed modes next reached => ?_
    rw [agree.expression _ _ _ (Cursor.rank_lt_of_le enough reached (by decide))]
  · rfl

theorem argumentsBody (enough : stream.cursor.rank 5 < bound + 1) :
    readers.argumentsBody modes stream = readers'.argumentsBody modes stream := by
  unfold HostReaders.argumentsBody
  rw [agree.entries _ _ _ _ (Cursor.rank_lt_of_le enough (Cursor.le_refl _) (by decide))]

theorem memberBody (enough : stream.cursor.rank 6 < bound + 1) :
    readers.memberBody modes stream = readers'.memberBody modes stream := by
  refine StreamOutcome.andThen_congr rfl fun name modes next passed => ?_
  refine onLook_congr fun view => ?_
  dsimp only
  split
  · rename_i found
    have passed := Cursor.lt_trans passed (view.lt_behind_of_symbol found)
    rw [agree.arguments _ _ (Cursor.rank_lt_of_lt enough passed (by decide))]
  · rfl

theorem accessesBody
    {start : Cursor}
    {base : Expression}
    (enough : stream.cursor.rank 0 < bound + 1) :
    readers.accessesBody modes stream start base =
      readers'.accessesBody modes stream start base := by
  refine onLook_congr fun view => ?_
  have goOn
      {accessed accessed' : StreamOutcome (stream.cursor < ·) (ExpressionForm Expression)}
      (same : accessed = accessed') :
      (accessed.andThen fun form modes next passed =>
          (readers.accesses start ⟨form, start.spanTo next.cursor⟩ modes next).weaken
            fun _ => Cursor.le_trans (Cursor.le_of_lt passed)) =
        accessed'.andThen fun form modes next passed =>
          (readers'.accesses start ⟨form, start.spanTo next.cursor⟩ modes next).weaken
            fun _ => Cursor.le_trans (Cursor.le_of_lt passed) := by
    refine StreamOutcome.andThen_congr same fun form modes next passed => ?_
    rw [agree.accesses _ _ _ _ (Cursor.rank_lt_of_lt enough passed (by decide))]
  dsimp only
  split
  · rename_i found
    have passed := view.lt_behind_of_symbol found
    refine goOn ?_
    rw [agree.member _ _ (Cursor.rank_lt_of_lt enough passed (by decide))]
  · rename_i found
    have passed := view.lt_behind_of_symbol found
    refine goOn ?_
    rw [agree.member _ _ (Cursor.rank_lt_of_lt enough passed (by decide))]
  · rename_i found
    have passed := view.lt_behind_of_symbol found
    refine goOn ?_
    rw [agree.expressionUnless _ _ _ (Cursor.rank_lt_of_lt enough passed (by decide))]
  · rename_i found
    have passed := view.lt_behind_of_symbol found
    split
    · refine goOn ?_
      rw [agree.arguments _ _ (Cursor.rank_lt_of_lt enough passed (by decide))]
    · rfl
  · rename_i found
    have passed := view.lt_behind_of_symbol found
    split
    · refine goOn ?_
      rw [agree.member _ _ (Cursor.rank_lt_of_lt enough passed (by decide))]
    · rfl
  · rfl

/-- Bodies agree in the calls of one more rank. -/
protected theorem unfold : AgreeBelow (bound + 1) readers.unfold readers'.unfold where
  markup := agree.markup.unfold
  trivia _ enough := agree.triviaBody enough
  parameters _ _ enough := agree.parametersBody enough
  expression _ _ _ enough := agree.expressionBody enough
  continuation _ _ _ _ _ enough := agree.continuationBody enough
  connected _ _ _ _ enough := agree.connectedBody enough
  expressionUnless _ _ _ enough := agree.expressionUnlessBody enough
  operand _ _ enough := agree.operandBody enough
  primary _ _ enough := agree.primaryBody enough
  arrowFunction _ _ enough := agree.arrowFunctionBody enough
  entries _ _ _ _ enough := agree.entriesBody enough
  keyedValue _ _ _ _ enough := agree.keyedValueBody enough
  arguments _ _ enough := agree.argumentsBody enough
  member _ _ enough := agree.memberBody enough
  accesses _ _ _ _ enough := agree.accessesBody enough

end AgreeBelow

/-- Readers that agree in all calls are the same. -/
theorem eq_of_agreeBelow
    {readers readers' : HostReaders}
    (agree : ∀ bound, AgreeBelow bound readers readers') :
    readers = readers' := by
  ext1
  · exact MarkupReaders.eq_of_agreeBelow fun bound => (agree bound).markup
  · funext c
    exact (agree _).trivia _ (Nat.lt_succ_self _)
  · funext stream modes
    exact (agree _).parameters _ _ (Nat.lt_succ_self _)
  · funext power modes stream
    exact (agree _).expression _ _ _ (Nat.lt_succ_self _)
  · funext start power left modes stream
    exact (agree _).continuation _ _ _ _ _ (Nat.lt_succ_self _)
  · funext binding left modes stream
    exact (agree _).connected _ _ _ _ (Nat.lt_succ_self _)
  · funext kind modes stream
    exact (agree _).expressionUnless _ _ _ (Nat.lt_succ_self _)
  · funext modes stream
    exact (agree _).operand _ _ (Nat.lt_succ_self _)
  · funext modes stream
    exact (agree _).primary _ _ (Nat.lt_succ_self _)
  · funext modes stream
    exact (agree _).arrowFunction _ _ (Nat.lt_succ_self _)
  · funext close keyed modes stream
    exact (agree _).entries _ _ _ _ (Nat.lt_succ_self _)
  · funext allowed first modes stream
    exact (agree _).keyedValue _ _ _ _ (Nat.lt_succ_self _)
  · funext modes stream
    exact (agree _).arguments _ _ (Nat.lt_succ_self _)
  · funext modes stream
    exact (agree _).member _ _ (Nat.lt_succ_self _)
  · funext start base modes stream
    exact (agree _).accesses _ _ _ _ (Nat.lt_succ_self _)

end HostReaders

end EmbeddedMarkup
