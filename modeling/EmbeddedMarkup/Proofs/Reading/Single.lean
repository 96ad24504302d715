import EmbeddedMarkup.Expression.Outcome

/-!
# Readers of single tokens

The small readers look at the token that is next.  They take it, leave it or refuse it, and leave
the modes alone.  What tells them apart is what they make of a token.
-/

namespace EmbeddedMarkup

/-- What a reader makes of the token that is next. -/
inductive TokenUse (α : Type) where
  /-- The token is taken. -/
  | take (value : α)
  /-- The token is left where it is. -/
  | leave (value : α)
  /-- Another token is wanted.  This one may be taken all the same. -/
  | refuse (wanted : Expectation) (taken : Bool)

namespace TokenUse

variable {α β : Type} {R : α → β → Prop} {Q : Cursor → Prop} {stream : TokenStream}

/-- A symbol has to be next. -/
def symbol (kind : Symbol) (token : Token) : TokenUse Unit :=
  if token.lexeme = .symbol kind then .take () else .refuse (.symbol kind) false

/-- A symbol may be next. -/
def optionalSymbol (kind : Symbol) (token : Token) : TokenUse Bool :=
  if token.lexeme = .symbol kind then .take true else .leave false

/-- An identifier may be next. -/
def optionalIdentifier (token : Token) : TokenUse Unit :=
  match token.lexeme with
  | .word .identifier _ => .take ()
  | _ => .leave ()

/-- A variable has to be next. -/
def parameter (token : Token) : TokenUse Parameter :=
  match token.lexeme with
  | .variable name => .take ⟨name, token.span⟩
  | _ => .refuse .variable false

/-- The name of a member has to be next. -/
def memberName (token : Token) : TokenUse String :=
  match token.lexeme with
  | .word _ text => .take text
  | _ => .refuse .identifier true

theorem symbol_eq_take {kind : Symbol} {token : Token} :
    symbol kind token = .take () ↔ token.lexeme = .symbol kind := by
  unfold symbol
  split <;> simp [*]

theorem symbol_ne_leave {kind : Symbol} {token : Token} : symbol kind token ≠ .leave () := by
  unfold symbol
  split <;> simp

theorem optionalSymbol_eq_take {kind : Symbol} {token : Token} {taken : Bool} :
    optionalSymbol kind token = .take taken ↔ taken = true ∧ token.lexeme = .symbol kind := by
  unfold optionalSymbol
  split <;> simp [*, eq_comm]

theorem optionalSymbol_eq_leave {kind : Symbol} {token : Token} {taken : Bool} :
    optionalSymbol kind token = .leave taken ↔ taken = false ∧ token.lexeme ≠ .symbol kind := by
  unfold optionalSymbol
  split <;> simp [*, eq_comm]

theorem optionalIdentifier_eq_take {token : Token} :
    optionalIdentifier token = .take () ↔ ∃ text, token.lexeme = .word .identifier text := by
  unfold optionalIdentifier
  split <;> simp_all

theorem optionalIdentifier_eq_leave {token : Token} :
    optionalIdentifier token = .leave () ↔ ∀ text, token.lexeme ≠ .word .identifier text := by
  unfold optionalIdentifier
  split <;> simp_all

theorem parameter_eq_take {token : Token} {value : Parameter} :
    parameter token = .take value ↔ token = ⟨.variable value.name, value.span⟩ := by
  obtain ⟨lexeme, span⟩ := token
  obtain ⟨name, place⟩ := value
  unfold parameter
  split <;> simp_all

theorem parameter_ne_leave {token : Token} {value : Parameter} :
    parameter token ≠ .leave value := by
  unfold parameter
  split <;> simp

theorem memberName_eq_take {token : Token} {text : String} :
    memberName token = .take text ↔ ∃ kind, token.lexeme = .word kind text := by
  unfold memberName
  split <;> simp_all

theorem memberName_ne_leave {token : Token} {text : String} : memberName token ≠ .leave text := by
  unfold memberName
  split <;> simp

/-- Two tokens are put to the same use, and the values are related. -/
inductive Rel (R : α → β → Prop) : TokenUse α → TokenUse β → Prop
  | take {value : α} {value' : β} : R value value' → Rel R (.take value) (.take value')
  | leave {value : α} {value' : β} : R value value' → Rel R (.leave value) (.leave value')
  | refuse {wanted : Expectation} {taken : Bool} :
      Rel R (.refuse wanted taken) (.refuse wanted taken)

theorem Rel.refl {R : α → α → Prop} (reflexive : ∀ value, R value value) (use : TokenUse α) :
    Rel R use use := by
  cases use with
  | take value => exact .take (reflexive value)
  | leave value => exact .leave (reflexive value)
  | refuse wanted taken => exact .refuse

/-- The cursor that a value leads to is as it has to be. -/
def Leads (Q : Cursor → Prop) (view : stream.View) : TokenUse α → Prop
  | .take _ => Q view.behind.cursor
  | .leave _ => Q view.here.cursor
  | .refuse _ _ => True

/-- The outcome of reading the token. -/
def outcome (view : stream.View) (modes : ModeStack) :
    (use : TokenUse α) → use.Leads Q view → StreamOutcome Q α
  | .take value, reached => .success value modes view.behind reached
  | .leave value, reached => .success value modes view.here reached
  | .refuse wanted taken, _ =>
      .failure (.grammar (.expected view.token.lexeme wanted) view.token.span) modes
        (if taken then view.behind else view.here)

end TokenUse

namespace TokenStream

variable {α : Type} {Q : Cursor → Prop} {stream : TokenStream} {modes : ModeStack}

/-- The outcome is that of reading a single token and making of it what is told. -/
def ReadsOne
    (stream : TokenStream)
    (modes : ModeStack)
    (use : Token → TokenUse α)
    (outcome : StreamOutcome Q α) : Prop :=
  ∃ leads : ∀ view : stream.View, (use view.token).Leads Q view,
    outcome = stream.onLook modes fun view => (use view.token).outcome view modes (leads view)

theorem readsOne_of_eq
    {use : Token → TokenUse α}
    {next : stream.View → StreamOutcome Q α}
    (same : ∀ view, ∃ leads, next view = (use view.token).outcome view modes leads) :
    stream.ReadsOne modes use (stream.onLook modes next) :=
  ⟨fun view => (same view).1, congrArg (stream.onLook modes) (funext fun view => (same view).2)⟩

theorem readsOne_expect {kind : Symbol} :
    stream.ReadsOne modes (.symbol kind) (stream.expect kind modes) := by
  refine readsOne_of_eq fun view => ?_
  unfold TokenUse.symbol
  by_cases found : view.token.lexeme = .symbol kind
  · simp only [dif_pos found, if_pos found]
    exact ⟨view.lt_behind_of_symbol found, rfl⟩
  · simp only [dif_neg found, if_neg found]
    exact ⟨trivial, rfl⟩

theorem readsOne_eat {kind : Symbol} :
    stream.ReadsOne modes (.optionalSymbol kind) (stream.eat kind modes) := by
  refine readsOne_of_eq fun view => ?_
  unfold TokenUse.optionalSymbol
  split
  · exact ⟨view.le_behind, rfl⟩
  · exact ⟨view.here_cursor ▸ Cursor.le_refl _, rfl⟩

theorem readsOne_eatIdentifier :
    stream.ReadsOne modes TokenUse.optionalIdentifier (stream.eatIdentifier modes) := by
  refine readsOne_of_eq ?_
  rintro ⟨⟨lexeme, span⟩, here, behind, still, reached, passed⟩
  have stays : stream.cursor ≤ here.cursor := still ▸ Cursor.le_refl _
  cases lexeme with
  | word kind text =>
      cases kind with
      | identifier => exact ⟨reached, rfl⟩
      | _ => exact ⟨stays, rfl⟩
  | _ => exact ⟨stays, rfl⟩

theorem readsOne_expectVariable :
    stream.ReadsOne modes TokenUse.parameter (stream.expectVariable modes) := by
  refine readsOne_of_eq ?_
  rintro ⟨⟨lexeme, span⟩, here, behind, still, reached, passed⟩
  cases lexeme <;> first | exact ⟨trivial, rfl⟩ | exact ⟨passed (by simp), rfl⟩

theorem readsOne_expectMemberName :
    stream.ReadsOne modes TokenUse.memberName (stream.expectMemberName modes) := by
  refine readsOne_of_eq ?_
  rintro ⟨⟨lexeme, span⟩, here, behind, still, reached, passed⟩
  cases lexeme <;> first | exact ⟨trivial, rfl⟩ | exact ⟨passed (by simp), rfl⟩

end TokenStream

end EmbeddedMarkup
