import EmbeddedMarkup.Proofs.Reading.Memory
import EmbeddedMarkup.Proofs.Reading.Termination

/-!
# Reading without a memory

Whether tokens are remembered makes no difference to the readers of host expressions.  Each body
makes the same of a stream without a memory, if the readers that it calls do; since unfolding leads
to the readers as they are, they do so too.

An expression reader may be called again and again on the stream that the last call left, whether
it succeeded or not.  In such a run every call gives the same, and leaves the same modes and the
same cursor, as in the run that remembers nothing.
-/

namespace EmbeddedMarkup

open TokenStream StreamOutcome

namespace HostReaders

/-- The readers give the same from a stream without a memory, but for the memory. -/
structure IgnoresMemory (readers : HostReaders) : Prop where
  parameters : ∀ stream modes,
    readers.parameters stream.uncached modes = (readers.parameters stream modes).uncached
  expression : ∀ power modes stream,
    readers.expression power modes stream.uncached =
      (readers.expression power modes stream).uncached
  continuation : ∀ start power left modes stream,
    readers.continuation start power left modes stream.uncached =
      (readers.continuation start power left modes stream).uncached
  connected : ∀ binding left modes stream,
    readers.connected binding left modes stream.uncached =
      (readers.connected binding left modes stream).uncached
  expressionUnless : ∀ kind modes stream,
    readers.expressionUnless kind modes stream.uncached =
      (readers.expressionUnless kind modes stream).uncached
  operand : ∀ modes stream,
    readers.operand modes stream.uncached = (readers.operand modes stream).uncached
  primary : ∀ modes stream,
    readers.primary modes stream.uncached = (readers.primary modes stream).uncached
  arrowFunction : ∀ modes stream,
    readers.arrowFunction modes stream.uncached = (readers.arrowFunction modes stream).uncached
  entries : ∀ close keyed modes stream,
    readers.entries close keyed modes stream.uncached =
      (readers.entries close keyed modes stream).uncached
  keyedValue : ∀ allowed first modes stream,
    readers.keyedValue allowed first modes stream.uncached =
      (readers.keyedValue allowed first modes stream).uncached
  arguments : ∀ modes stream,
    readers.arguments modes stream.uncached = (readers.arguments modes stream).uncached
  member : ∀ modes stream,
    readers.member modes stream.uncached = (readers.member modes stream).uncached
  accesses : ∀ start base modes stream,
    readers.accesses start base modes stream.uncached =
      (readers.accesses start base modes stream).uncached

/-- Readers that give up wherever they are called. -/
def givingUp : HostReaders :=
  let giveUp {P : Cursor → Prop} {α : Type} (modes : ModeStack) (stream : TokenStream) :
      StreamOutcome P α := .failure (.markup .expectedElement stream.cursor.position) modes stream
  { markup := .actual
    trivia := skipTrivia
    parameters := fun stream modes => giveUp modes stream
    expression := fun _ modes stream => giveUp modes stream
    continuation := fun _ _ _ modes stream => giveUp modes stream
    connected := fun _ _ modes stream => giveUp modes stream
    expressionUnless := fun _ modes stream => giveUp modes stream
    operand := fun modes stream => giveUp modes stream
    primary := fun modes stream => giveUp modes stream
    arrowFunction := fun modes stream => giveUp modes stream
    entries := fun _ _ modes stream => giveUp modes stream
    keyedValue := fun _ _ modes stream => giveUp modes stream
    arguments := fun modes stream => giveUp modes stream
    member := fun modes stream => giveUp modes stream
    accesses := fun _ _ modes stream => giveUp modes stream }

theorem ignoresMemory_givingUp : givingUp.IgnoresMemory := by
  constructor <;> intros <;> rfl

namespace IgnoresMemory

variable {readers : HostReaders} {modes : ModeStack} {stream : TokenStream}
  (ignores : readers.IgnoresMemory)

include ignores

theorem parametersBody :
    readers.parametersBody modes stream.uncached =
      (readers.parametersBody modes stream).uncached := by
  refine onLook_uncached fun lexeme span here behind stays reached passed => ?_
  dsimp only [View.uncached]
  split
  · rfl
  refine andThen_uncached eat_uncached fun _ modes typed read => ?_
  refine andThen_uncached eatIdentifier_uncached fun _ modes named read => ?_
  refine andThen_uncached expectVariable_uncached fun parameter modes listed read => ?_
  refine andThen_uncached eat_uncached fun more modes next read => ?_
  split
  · exact weaken_uncached (map_uncached (ignores.parameters _ _))
  · exact weaken_uncached (map_uncached expect_uncached)

theorem expressionBody {power : Nat} :
    readers.expressionBody modes stream.uncached power =
      (readers.expressionBody modes stream power).uncached := by
  refine onNextStart_uncached fun start _ => ?_
  split
  · rfl
  · refine mapModes_uncached (andThen_uncached (ignores.operand _ _) ?_)
    intro left modes behind passed
    exact weaken_uncached (ignores.continuation _ _ _ _ _)

theorem continuationBody {start : Cursor} {power : Nat} {left : Expression} :
    readers.continuationBody modes stream.uncached start power left =
      (readers.continuationBody modes stream start power left).uncached := by
  refine onLook_uncached fun lexeme span here behind stays reached passed => ?_
  dsimp only [View.uncached]
  split
  · rfl
  · split
    · rfl
    · refine andThen_uncached (ignores.connected _ _ _ _) fun form modes next read => ?_
      exact weaken_uncached (ignores.continuation _ _ _ _ _)

theorem connectedBody {binding : Binding} {left : Expression} :
    readers.connectedBody modes stream.uncached binding left =
      (readers.connectedBody modes stream binding left).uncached := by
  unfold HostReaders.connectedBody
  split
  · exact map_uncached (ignores.expression _ _ _)
  · split
    · exact map_uncached (ignores.expression _ _ _)
    · rfl
  · refine andThen_uncached (ignores.expressionUnless _ _ _) fun ifTrue modes next reached => ?_
    refine andThen_uncached expect_uncached fun _ modes next read => ?_
    exact weaken_uncached (map_uncached (ignores.expression _ _ _))

theorem expressionUnlessBody {kind : Symbol} :
    readers.expressionUnlessBody modes stream.uncached kind =
      (readers.expressionUnlessBody modes stream kind).uncached := by
  refine onLook_uncached fun lexeme span here behind stays reached passed => ?_
  dsimp only [View.uncached]
  split
  · rfl
  · exact weaken_uncached (map_uncached (ignores.expression _ _ _))

/-- The delegate for markup does not depend on the memory. -/
theorem delegate (remembers remembers' : Bool) (limit : Cursor) :
    readers.delegate remembers limit = readers.delegate remembers' limit := by
  have uncached (remembers : Bool) :
      readers.delegate remembers limit = readers.delegate false limit := by
    funext modes inside ahead
    have same := ignores.expression 0 modes (fresh remembers inside)
    have outcome : (readers.expression 0 modes (fresh false inside)).toOutcome =
        (readers.expression 0 modes (fresh remembers inside)).toOutcome :=
      (congrArg toOutcome same).trans toOutcome_uncached
    exact congrArg (Outcome.weaken · fun _ => Cursor.le_of_lt) outcome.symm
  rw [uncached remembers, uncached remembers']

theorem operandBody :
    readers.operandBody modes stream.uncached = (readers.operandBody modes stream).uncached := by
  refine onNextStart_uncached fun start reached => ?_
  split
  · have same : readers.delegate stream.uncached.remembers start =
        readers.delegate stream.remembers start := ignores.delegate _ _ _
    rw [same]
    split <;> rfl
  · refine onLook_uncached fun lexeme span here behind stays reached passed => ?_
    dsimp only [View.uncached]
    split
    · exact andThen_uncached (ignores.expression _ _ _) fun operand modes next read => rfl
    · exact andThen_uncached (ignores.expression _ _ _) fun operand modes next read => rfl
    · refine andThen_uncached (ignores.primary _ _) fun primary modes next read => ?_
      exact weaken_uncached (ignores.accesses _ _ _ _)

theorem primaryBody :
    readers.primaryBody modes stream.uncached = (readers.primaryBody modes stream).uncached := by
  refine onNextStart_uncached fun start _ => ?_
  refine onLook_uncached fun lexeme span here behind stays reached passed => ?_
  dsimp only [View.uncached]
  split <;> try rfl
  · split
    · refine onLook_uncached fun lexeme span here behind stays reached passed => ?_
      dsimp only [View.uncached]
      split
      · exact andThen_uncached (ignores.entries _ _ _ _) fun items modes stop read => rfl
      · rfl
    · rfl
  · exact andThen_uncached (ignores.entries _ _ _ _) fun items modes stop read => rfl
  · exact andThen_uncached (ignores.arrowFunction _ _) fun form modes stop read => rfl
  · refine andThen_uncached (ignores.expression _ _ _) fun inner modes next read => ?_
    exact weaken_uncached (map_uncached expect_uncached)

theorem arrowFunctionBody :
    readers.arrowFunctionBody modes stream.uncached =
      (readers.arrowFunctionBody modes stream).uncached := by
  refine andThen_uncached expect_uncached fun _ modes opened passed => ?_
  refine andThen_uncached (ignores.parameters _ _) fun parameters modes closed read => ?_
  refine andThen_uncached expect_uncached fun _ modes body read => ?_
  exact weaken_uncached (map_uncached (ignores.expression _ _ _))

theorem entriesBody {close : Symbol} {keyed : Bool} :
    readers.entriesBody modes stream.uncached close keyed =
      (readers.entriesBody modes stream close keyed).uncached := by
  refine onLook_uncached fun lexeme span here behind stays reached passed => ?_
  dsimp only [View.uncached]
  split
  · rfl
  refine onNextStart_uncached fun start _ => ?_
  refine andThen_uncached eat_uncached fun unpack modes first read => ?_
  refine andThen_uncached (ignores.expression _ _ _) fun value modes next read => ?_
  refine andThen_uncached (ignores.keyedValue _ _ _ _) fun pair modes next read => ?_
  refine andThen_uncached eat_uncached fun more modes next read => ?_
  split
  · exact weaken_uncached (map_uncached (ignores.entries _ _ _ _))
  · exact weaken_uncached (map_uncached expect_uncached)

theorem keyedValueBody {allowed : Bool} {first : Expression} :
    readers.keyedValueBody modes stream.uncached allowed first =
      (readers.keyedValueBody modes stream allowed first).uncached := by
  unfold HostReaders.keyedValueBody
  split
  · refine andThen_uncached eat_uncached fun keyed modes next reached => ?_
    split
    · exact weaken_uncached (map_uncached (ignores.expression _ _ _))
    · rfl
  · rfl

theorem argumentsBody :
    readers.argumentsBody modes stream.uncached =
      (readers.argumentsBody modes stream).uncached :=
  map_uncached (ignores.entries _ _ _ _)

theorem memberBody :
    readers.memberBody modes stream.uncached = (readers.memberBody modes stream).uncached := by
  refine andThen_uncached expectMemberName_uncached fun name modes next passed => ?_
  refine onLook_uncached fun lexeme span here behind stays reached passed => ?_
  dsimp only [View.uncached]
  split
  · exact weaken_uncached (map_uncached (ignores.arguments _ _))
  · rfl

theorem accessesBody {start : Cursor} {base : Expression} :
    readers.accessesBody modes stream.uncached start base =
      (readers.accessesBody modes stream start base).uncached := by
  refine onLook_uncached fun lexeme span here behind stays reached passed => ?_
  dsimp only [View.uncached]
  split
  · refine andThen_uncached (weaken_uncached (map_uncached (ignores.member _ _))) ?_
    exact fun form modes next passed => weaken_uncached (ignores.accesses _ _ _ _)
  · refine andThen_uncached (weaken_uncached (map_uncached (ignores.member _ _))) ?_
    exact fun form modes next passed => weaken_uncached (ignores.accesses _ _ _ _)
  · refine andThen_uncached (andThen_uncached (ignores.expressionUnless _ _ _) ?_) ?_
    · exact fun index modes next read => weaken_uncached (map_uncached expect_uncached)
    · exact fun form modes next passed => weaken_uncached (ignores.accesses _ _ _ _)
  · split
    · refine andThen_uncached (weaken_uncached (map_uncached (ignores.arguments _ _))) ?_
      exact fun form modes next passed => weaken_uncached (ignores.accesses _ _ _ _)
    · rfl
  · split
    · refine andThen_uncached (weaken_uncached (map_uncached (ignores.member _ _))) ?_
      exact fun form modes next passed => weaken_uncached (ignores.accesses _ _ _ _)
    · rfl
  · rfl

/-- Bodies ignore the memory. -/
protected theorem unfold : readers.unfold.IgnoresMemory where
  parameters _ _ := ignores.parametersBody
  expression _ _ _ := ignores.expressionBody
  continuation _ _ _ _ _ := ignores.continuationBody
  connected _ _ _ _ := ignores.connectedBody
  expressionUnless _ _ _ := ignores.expressionUnlessBody
  operand _ _ := ignores.operandBody
  primary _ _ := ignores.primaryBody
  arrowFunction _ _ := ignores.arrowFunctionBody
  entries _ _ _ _ := ignores.entriesBody
  keyedValue _ _ _ _ := ignores.keyedValueBody
  arguments _ _ := ignores.argumentsBody
  member _ _ := ignores.memberBody
  accesses _ _ _ _ := ignores.accessesBody

theorem unfolded (steps : Nat) : (readers.unfolded steps).IgnoresMemory := by
  induction steps with
  | zero => exact ignores
  | succ steps unfolds => exact unfolds.unfold

end IgnoresMemory

end HostReaders

/-! ## Calls -/

/-- Readers that are unfolded often enough read expressions as they are read. -/
theorem readExpression_eq_unfolded
    {power steps : Nat}
    {modes : ModeStack}
    {stream : TokenStream}
    (bounded : stream.cursor.rank 3 < steps) :
    readExpression power modes stream =
      (HostReaders.givingUp.unfolded steps).expression power modes stream :=
  ((HostReaders.givingUp.unfolded_agreeBelow steps).expression power modes stream bounded).symm

/-- Reading an expression gives the same without a memory, but for the memory. -/
theorem readExpression_uncached (power : Nat) (modes : ModeStack) (stream : TokenStream) :
    readExpression power modes stream.uncached =
      (readExpression power modes stream).uncached := by
  have ignores := HostReaders.ignoresMemory_givingUp.unfolded (stream.cursor.rank 3 + 1)
  have bounded : stream.cursor.rank 3 < stream.cursor.rank 3 + 1 := Nat.lt_succ_self _
  rw [readExpression_eq_unfolded bounded, ← ignores.expression power modes stream]
  exact readExpression_eq_unfolded bounded

/-- What a call of the reader of expressions gives and leaves. -/
structure ExpressionCall where
  result : Except Fault Expression
  modes : ModeStack
  stream : TokenStream

namespace ExpressionCall

/-- The call that has this outcome. -/
def ofOutcome {P : Cursor → Prop} : StreamOutcome P Expression → ExpressionCall
  | .success expression modes stream _ => ⟨.ok expression, modes, stream⟩
  | .failure fault modes stream => ⟨.error fault, modes, stream⟩

/-- The call with a stream that remembers nothing. -/
def uncached (call : ExpressionCall) : ExpressionCall :=
  { call with stream := call.stream.uncached }

theorem ofOutcome_uncached {P : Cursor → Prop} (outcome : StreamOutcome P Expression) :
    ofOutcome outcome.uncached = (ofOutcome outcome).uncached := by
  cases outcome <;> rfl

/-- A number of calls, each of them on what the last one left, even if it failed. -/
def run (modes : ModeStack) (stream : TokenStream) : Nat → List ExpressionCall
  | 0 => []
  | count + 1 =>
      let call := ofOutcome (readExpression 0 modes stream)
      call :: run call.modes call.stream count

/-- Every call of a run gives the same without a memory, but for the memory. -/
theorem run_uncached (modes : ModeStack) (stream : TokenStream) (count : Nat) :
    run modes stream.uncached count = (run modes stream count).map uncached := by
  induction count generalizing modes stream with
  | zero => rfl
  | succ count ih =>
      have first : ofOutcome (readExpression 0 modes stream.uncached) =
          (ofOutcome (readExpression 0 modes stream)).uncached :=
        (congrArg ofOutcome (readExpression_uncached 0 modes stream)).trans
          (ofOutcome_uncached _)
      rw [run, first, run, List.map_cons]
      exact congrArg _ (ih _ _)

/--
Whatever a stream remembers is what reading anew gives.  From a stream that remembers tokens every
call of a run gives the same result, and leaves the same modes and cursor, as from one that reads
each token anew and remembers none.
-/
theorem run_fresh_eq (modes : ModeStack) (start : Cursor) (count : Nat) :
    (∀ (stream : TokenStream) (next : Lookahead stream.cursor),
      stream.remembered = some next →
        readToken stream.cursor = ⟨.ok next.token, next.stop⟩) ∧
    run modes (fresh false start) count =
      (run modes (fresh true start) count).map fun call =>
        { call with stream := fresh false call.stream.cursor } :=
  ⟨fun _ next _ => next.read_eq, run_uncached modes (fresh true start) count⟩

/-- A call of a run is one of readers that are unfolded often enough. -/
theorem run_succ_of_rank_lt
    {modes : ModeStack}
    {stream : TokenStream}
    {count : Nat}
    (steps : Nat)
    (bounded : stream.cursor.rank 3 < steps) :
    run modes stream (count + 1) =
      ofOutcome ((HostReaders.givingUp.unfolded steps).expression 0 modes stream) ::
        run (ofOutcome ((HostReaders.givingUp.unfolded steps).expression 0 modes stream)).modes
          (ofOutcome ((HostReaders.givingUp.unfolded steps).expression 0 modes stream)).stream
          count := by
  rw [run, readExpression_eq_unfolded bounded]

/--
The first call fails behind the equals sign, the second one reads the number behind it and remembers
the parenthesis, and the third one fails at the parenthesis that is remembered.
-/
theorem run_fresh_eq_notAssignable :
    ∃ (first second third : ExpressionCall) (next : Lookahead second.stream.cursor),
      [first, second, third].map (·.result.isOk) = [false, true, false] ∧
      second.stream.remembered = some next ∧
      next.token.lexeme = .symbol .rightParen ∧
      readToken second.stream.cursor = ⟨.ok next.token, next.stop⟩ ∧
      run (.initial 2) (fresh true (.ofText "/* a */ 1 = 2 /* b */ )")) 3 =
        [first, second, third] ∧
      run (.initial 2) (fresh false (.ofText "/* a */ 1 = 2 /* b */ )")) 3 =
        [first, second, third].map fun call =>
          { call with stream := fresh false call.stream.cursor } := by
  obtain ⟨first, second, third, ran, results, known⟩ :
      ∃ first second third,
        run (.initial 2) (fresh true (.ofText "/* a */ 1 = 2 /* b */ )")) 3 =
          [first, second, third] ∧
        [first, second, third].map (·.result.isOk) = [false, true, false] ∧
        second.stream.remembered.map (·.token.lexeme) = some (.symbol .rightParen) := by
    rw [run_succ_of_rank_lt 200, run_succ_of_rank_lt 200, run_succ_of_rank_lt 200]
    · exact ⟨_, _, _, rfl, by decide +kernel, by decide +kernel⟩
    all_goals decide +kernel
  obtain ⟨next, remembered, lexeme⟩ := Option.map_eq_some_iff.mp known
  obtain ⟨invariant, same⟩ := run_fresh_eq (.initial 2) (.ofText "/* a */ 1 = 2 /* b */ )") 3
  exact ⟨first, second, third, next, results, remembered, lexeme, invariant _ next remembered, ran,
    same.trans (congrArg _ ran)⟩

end ExpressionCall

end EmbeddedMarkup
