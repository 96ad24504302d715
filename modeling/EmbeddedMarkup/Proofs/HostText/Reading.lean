import EmbeddedMarkup.Proofs.HostText.Places
import EmbeddedMarkup.Proofs.Reading.ExpressionSoundness
import EmbeddedMarkup.Proofs.Tree.Outermost

/-!
# The places that a reader comes to

Host code that is read is gone through token by token and element by element.
-/

namespace EmbeddedMarkup

variable {level level' : Nat} {start c d first behind middle : Cursor} {lexeme : Lexeme}
  {elements : List (Element Expression)} {trail : Trail}

theorem Expected.behind_symbol (expected : Expected) (kind : Symbol) :
    expected.behind (.symbol kind) = behindSymbol kind := by
  cases expected <;> rfl

namespace Trail

theorem expected_ofSymbol (expressionStart : Bool) (kind : Symbol) :
    (ofSymbol expressionStart kind).expected = Expected.behindSymbol kind := by
  cases kind <;> cases expressionStart <;> rfl

/-- Behind a word that is no connective, a connective is expected. -/
theorem behind_word_eq_connective
    {expected : Expected}
    {kind : WordKind}
    {text : String}
    (other : expected.behind (.word kind text) ≠ .operand) :
    expected.behind (.word kind text) = .connective := by
  cases expected <;> cases kind <;> first | rfl | exact absurd rfl other

theorem expected_ofWord (expected : Expected) (kind : WordKind) (text : String) :
    (ofWord expected kind text).expected = expected.behind (.word kind text) := by
  unfold ofWord
  split
  · rename_i operand
    exact operand.symm
  · rename_i other
    split <;> exact (behind_word_eq_connective other).symm

theorem expected_ofGluedWord (expected : Expected) (kind : WordKind) (text : String) :
    (ofGluedWord expected kind text).expected = expected.behind (.word kind text) := by
  unfold ofGluedWord
  split
  · rename_i operand
    exact operand.symm
  · rename_i other
    split <;> exact (behind_word_eq_connective other).symm

theorem expected_ofLexeme (trail : Trail) (lexeme : Lexeme) :
    (trail.ofLexeme lexeme).expected = trail.expected.behind lexeme := by
  cases lexeme with
  | word kind text => exact expected_ofWord _ _ _
  | symbol kind =>
      rw [ofLexeme, expected_ofSymbol]
      cases trail <;> rfl
  | _ => cases trail <;> rfl

/-- What is expected behind a trail is what is expected behind its last token. -/
theorem expected_behind (trail : Trail) (gap : List Char) (lexeme : Lexeme) :
    (trail.behind gap lexeme).expected = trail.expected.behind lexeme := by
  unfold behind
  split
  · split <;> rfl
  · split <;> rfl
  · split
    · exact expected_ofGluedWord _ _ _
    · exact expected_ofWord _ _ _
  · split
    · exact expected_ofGluedWord _ _ _
    · exact expected_ofWord _ _ _
  · split
    · rfl
    · exact expected_ofWord _ _ _
  · split <;> rfl
  · exact expected_ofLexeme _ _

end Trail

/-- The reader comes from the start behind some elements to a place where `expected` may follow. -/
def ComesTo
    (level : Nat)
    (start : Cursor)
    (elements : List (Element Expression))
    (expected : Expected)
    (c : Cursor) : Prop :=
  ∃ trail, (HostPlace.start start).Reaches level ⟨elements, trail, c⟩ ∧ trail.expected = expected

namespace ComesTo

variable {expected : Expected} {taken : Bool}

/-- The reader goes on over a token. -/
theorem token
    (comes : ComesTo level start elements expected c)
    (next : NextLexeme c lexeme d)
    (admitted : expected.admits lexeme = true) :
    ComesTo level start elements (expected.behind lexeme) d := by
  obtain ⟨trail, reached, rfl⟩ := comes
  obtain ⟨first, skipped⟩ := next.skipTrivia
  exact ⟨_, reached.tail (.token skipped next admitted), Trail.expected_behind _ _ _⟩

theorem symbol
    {kind : Symbol}
    (comes : ComesTo level start elements expected c)
    (next : NextLexeme c (.symbol kind) d)
    (admitted : expected.admits (.symbol kind) = true) :
    ComesTo level start elements (Expected.behindSymbol kind) d := by
  have behind := comes.token next admitted
  rwa [Expected.behind_symbol] at behind

/-- The reader goes on over an element. -/
theorem markup
    {element : Element Expression}
    (comes : ComesTo level start elements expected c)
    (skipped : skipTrivia c = ⟨.ok (), first⟩)
    (allowed : expected.allowsMarkup = true)
    (starts : startsMarkup first.rest = true)
    (reads : Reads level (.element element) first d) :
    ComesTo level start (elements ++ [element]) .connective d := by
  obtain ⟨trail, reached, rfl⟩ := comes
  exact ⟨_, reached.tail (.markup skipped allowed starts reads), rfl⟩

/-- The reader goes on over a symbol that it may take. -/
theorem mayTake
    {kind : Symbol}
    (comes : ComesTo level start elements expected c)
    (may : MayTake kind c taken d)
    (admitted : expected.admits (.symbol kind) = true) :
    ComesTo level start elements (if taken then Expected.behindSymbol kind else expected) d := by
  cases may with
  | taken next => exact comes.symbol next admitted
  | left => exact comes

end ComesTo

/-- What starts an operand is admitted wherever markup is. -/
theorem Expected.admits_of_startsOperand
    {expected : Expected}
    (allowed : expected.allowsMarkup = true)
    (starts : startsOperand lexeme = true) :
    expected.admits lexeme = true := by
  cases expected with
  | operand => exact starts
  | item =>
      unfold admits
      split <;> first | rfl | simp_all
  | connective | member => cases allowed

/-- A connective is admitted behind an operand, and another operand behind it. -/
theorem admits_of_binding?
    {binding : Binding}
    (connects : lexeme.binding? = some binding) :
    Expected.connective.admits lexeme = true ∧
      Expected.connective.behind lexeme =
        if binding.connective = .ternary then .item else .operand := by
  unfold Lexeme.binding? at connects
  split at connects
  · rename_i kind
    cases kind <;> cases connects <;> exact ⟨rfl, rfl⟩
  · rename_i kind text
    cases kind <;> cases connects <;> exact ⟨rfl, rfl⟩
  · cases connects

/-- What a phrase promises about a reader that comes to its start. -/
def Phrase.IsPassed (level : Nat) (start c d : Cursor) : Phrase → Prop
  | .expression _ whole | .operand whole | .primary whole =>
      ∀ elements expected, expected.allowsMarkup = true →
        ComesTo level start elements expected c →
        ComesTo level start (elements ++ whole.outermost) .connective d
  | .continuation _ _ left whole | .accesses _ left whole =>
      ∀ elements, ComesTo level start (elements ++ left.outermost) .connective c →
        ComesTo level start (elements ++ whole.outermost) .connective d
  | .connection binding left form =>
      ∀ elements,
        ComesTo level start (elements ++ left.outermost)
          (if binding.connective = .ternary then .item else .operand) c →
        ComesTo level start (elements ++ form.outermost) .connective d
  | .optional kind part =>
      Expected.item.admits (.symbol kind) = true →
      Expected.connective.admits (.symbol kind) = true → ∀ elements,
        ComesTo level start elements .item c →
        ∃ expected, expected.admits (.symbol kind) = true ∧
          ComesTo level start (elements ++ outermostOfOption part) expected d
  | .parameters _ =>
      ∀ elements, ComesTo level start elements .item c → ComesTo level start elements .connective d
  | .arrowFunction form =>
      ∀ elements, ComesTo level start elements .connective c →
        ComesTo level start (elements ++ form.outermost) .connective d
  | .entry _ item =>
      ∀ elements, ComesTo level start elements .item c →
        ComesTo level start (elements ++ outermostOfItems [item]) .connective d
  | .entries close _ items =>
      Expected.behindSymbol close = .connective → ∀ elements,
        ComesTo level start elements .item c →
        ComesTo level start (elements ++ outermostOfItems items) .connective d
  | .member _ arguments =>
      ∀ elements, ComesTo level start elements .member c →
        ComesTo level start (elements ++ (arguments.map outermostOfArguments).getD []) .connective d
  | .access base form =>
      ∀ elements, ComesTo level start (elements ++ base.outermost) .connective c →
        ComesTo level start (elements ++ form.outermost) .connective d
  | _ => True

theorem key_eq_none_of_reads_entry
    {item : ArrayItem Expression}
    (reads : Reads level (.entry false item) c d) :
    item.key = none := by
  cases reads with
  | plainEntry => rfl

/-- The arguments of a call have no keys. -/
theorem key_eq_none_of_reads_entries
    {close : Symbol}
    {items : List (ArrayItem Expression)}
    (reads : Reads level (.entries close false items) c d) :
    ∀ item ∈ items, item.key = none := by
  generalize same : Phrase.entries close false items = phrase at reads
  induction reads generalizing items with
  | noEntries =>
      cases same
      exact fun _ none => nomatch none
  | lastEntry _ _ entry =>
      cases same
      exact List.forall_mem_singleton.mpr (key_eq_none_of_reads_entry entry)
  | moreEntries _ _ entry _ _ _ rest =>
      cases same
      exact List.forall_mem_cons.mpr ⟨key_eq_none_of_reads_entry entry, rest rfl⟩
  | _ => cases same

/-! ## Rules -/

section Rules

variable
  {left whole inner base : Expression}
  {form : ExpressionForm Expression}
  {items : List (ArrayItem Expression)}
  {item : ArrayItem Expression}
  {close kind : Symbol}
  {keyed : Bool}
  {named opened closed : Cursor}
  {text : String}

theorem isPassed_ternary
    {leftPower rightPower : Nat}
    {ifTrue : Option Expression}
    {ifFalse : Expression}
    (optional : (Phrase.optional .colon ifTrue).IsPassed level start c middle)
    (colon : NextLexeme middle (.symbol .colon) behind)
    (last : (Phrase.expression rightPower ifFalse).IsPassed level start behind d) :
    (Phrase.connection ⟨.ternary, leftPower, rightPower⟩ left
      (.ternary left ifTrue ifFalse)).IsPassed level start c d := by
  intro elements comes
  obtain ⟨expected, admitted, comes⟩ := optional rfl rfl _ comes
  have comes := last _ .item rfl (comes.symbol colon admitted)
  simpa [ExpressionForm.outermost] using comes

theorem isPassed_present
    (part : (Phrase.expression 0 inner).IsPassed level start c d) :
    (Phrase.optional kind (some inner)).IsPassed level start c d := by
  intro _ admitted elements comes
  exact ⟨.connective, admitted, part _ .item rfl comes⟩

/-- A sign is followed by its operand. -/
theorem isPassed_sign
    (next : NextLexeme c (.symbol kind) behind)
    (starts : Expected.startsOperand (.symbol kind) = true)
    (signs : Expected.behindSymbol kind = .operand)
    (operand : (Phrase.expression signPower inner).IsPassed level start behind d)
    (same : whole.outermost = inner.outermost) :
    (Phrase.operand whole).IsPassed level start c d := by
  intro elements expected allowed comes
  have comes := comes.symbol next (Expected.admits_of_startsOperand allowed starts)
  rw [signs] at comes
  rw [same]
  exact operand _ .operand rfl comes

/-- Behind a token that is an operand, or a name or a keyword at the start of one, it goes on. -/
theorem Expected.behind_eq_connective
    (expected : Expected)
    (starts : startsOperand lexeme = true)
    (noSymbol : ∀ kind, lexeme ≠ .symbol kind) :
    expected.behind lexeme = .connective := by
  cases lexeme with
  | symbol kind => exact absurd rfl (noSymbol kind)
  | word kind text =>
      cases kind with
      | identifier | fn => cases expected <;> rfl
      | _ => cases starts
  | _ => cases expected <;> rfl

/-- Such a token is gone over. -/
theorem ComesTo.operandToken
    {expected : Expected}
    (comes : ComesTo level start elements expected c)
    (allowed : expected.allowsMarkup = true)
    (next : NextLexeme c lexeme d)
    (starts : Expected.startsOperand lexeme = true)
    (noSymbol : ∀ kind, lexeme ≠ .symbol kind) :
    ComesTo level start elements .connective d := by
  have behind := comes.token next (Expected.admits_of_startsOperand allowed starts)
  rwa [expected.behind_eq_connective starts noSymbol] at behind

theorem isPassed_leaf
    {span : Span}
    (next : NextLexeme c lexeme d)
    (leaf : lexeme.leaf? = some form) :
    (Phrase.primary ⟨form, span⟩).IsPassed level start c d := by
  intro elements expected allowed comes
  cases lexeme with
  | symbol | word | endOfInput => cases leaf
  | _ =>
      cases leaf
      have comes := comes.operandToken allowed next rfl (by simp)
      simpa [Expression.outermost, ExpressionForm.outermost] using comes

theorem isPassed_name
    {span : Span}
    (next : NextLexeme c (.word .identifier text) d) :
    (Phrase.primary ⟨.bareName text, span⟩).IsPassed level start c d := by
  intro elements expected allowed comes
  have comes := comes.operandToken allowed next rfl (by simp)
  simpa [Expression.outermost, ExpressionForm.outermost] using comes

theorem isPassed_arrayCall
    {span : Span}
    (next : NextLexeme c (.word .identifier text) named)
    (opened : NextLexeme named (.symbol .leftParen) behind)
    (entries : (Phrase.entries .rightParen true items).IsPassed level start behind d) :
    (Phrase.primary ⟨.array items, span⟩).IsPassed level start c d := by
  intro elements expected allowed comes
  have comes := comes.operandToken allowed next rfl (by simp)
  exact entries rfl _ (comes.symbol opened rfl)

theorem isPassed_array
    {span : Span}
    (next : NextLexeme c (.symbol .leftBracket) behind)
    (entries : (Phrase.entries .rightBracket true items).IsPassed level start behind d) :
    (Phrase.primary ⟨.array items, span⟩).IsPassed level start c d := by
  intro elements expected allowed comes
  exact entries rfl _ (comes.symbol next (Expected.admits_of_startsOperand allowed rfl))

theorem isPassed_function
    {span : Span}
    (next : NextLexeme c (.word .fn text) behind)
    (function : (Phrase.arrowFunction form).IsPassed level start behind d) :
    (Phrase.primary ⟨form, span⟩).IsPassed level start c d := by
  intro elements expected allowed comes
  exact function _ (comes.operandToken allowed next rfl (by simp))

theorem isPassed_parenthesized
    (next : NextLexeme c (.symbol .leftParen) behind)
    (reads : (Phrase.expression 0 inner).IsPassed level start behind middle)
    (closed : NextLexeme middle (.symbol .rightParen) d) :
    (Phrase.primary inner).IsPassed level start c d := by
  intro elements expected allowed comes
  have comes := comes.symbol next (Expected.admits_of_startsOperand allowed rfl)
  exact (reads _ .item rfl comes).symbol closed rfl

/-- A parameter is gone over. -/
theorem ComesTo.parameter
    {nullable : Bool}
    {typed listed : Cursor}
    {span : Span}
    (comes : ComesTo level start elements .item c)
    (maybe : MayTake .question c nullable typed)
    (identifier : MayTakeIdentifier typed named)
    (read : readToken named = ⟨.ok ⟨.variable text, span⟩, listed⟩) :
    ComesTo level start elements .connective listed := by
  have typed' : ComesTo level start elements .item typed := by
    have behind := comes.mayTake maybe rfl
    cases nullable <;> exact behind
  cases identifier with
  | taken next => exact (typed'.operandToken rfl next rfl (by simp)).token ⟨span, read⟩ rfl
  | left => exact typed'.operandToken rfl ⟨span, read⟩ rfl (by simp)

theorem isPassed_arrowFunction
    {list : List Parameter}
    {arrow : Cursor}
    (next : NextLexeme c (.symbol .leftParen) opened)
    (parameters : (Phrase.parameters list).IsPassed level start opened closed)
    (arrowed : NextLexeme closed (.symbol .doubleArrow) arrow)
    (body : (Phrase.expression 0 inner).IsPassed level start arrow d) :
    (Phrase.arrowFunction (.arrowFunction list inner)).IsPassed level start c d := by
  intro elements comes
  have comes := parameters _ (comes.symbol next rfl)
  exact body _ .item rfl (comes.symbol arrowed rfl)

theorem isPassed_plainEntry
    {unpack : Bool}
    {span : Span}
    (ellipsis : MayTake .ellipsis c unpack behind)
    (reads : (Phrase.expression 0 inner).IsPassed level start behind d) :
    (Phrase.entry keyed ⟨none, inner, unpack, span⟩).IsPassed level start c d := by
  intro elements comes
  have behind := comes.mayTake ellipsis rfl
  have comes := reads _ .item rfl (by cases unpack <;> exact behind)
  simpa [outermostOfItems, outermostOfOption] using comes

theorem isPassed_keyedEntry
    {key value : Expression}
    {arrow : Cursor}
    {span : Span}
    (reads : (Phrase.expression 0 key).IsPassed level start c arrow)
    (next : NextLexeme arrow (.symbol .doubleArrow) behind)
    (reads' : (Phrase.expression 0 value).IsPassed level start behind d) :
    (Phrase.entry true ⟨some key, value, false, span⟩).IsPassed level start c d := by
  intro elements comes
  have comes := (reads _ .item rfl comes).symbol next rfl
  have comes := reads' _ .item rfl comes
  simpa [outermostOfItems, outermostOfOption] using comes

/-- What closes a list may follow an item, or stand instead of one. -/
theorem Expected.admits_of_behindSymbol
    (closes : behindSymbol close = .connective) :
    Expected.item.admits (.symbol close) = true ∧ connective.admits (.symbol close) = true := by
  cases close <;> first | exact ⟨rfl, rfl⟩ | cases closes

theorem isPassed_noEntries
    (next : NextLexeme c (.symbol close) d) :
    (Phrase.entries close keyed []).IsPassed level start c d := by
  intro closes elements comes
  have comes := comes.symbol next (Expected.admits_of_behindSymbol closes).1
  rw [closes] at comes
  simpa [outermostOfItems] using comes

theorem isPassed_lastEntry
    {listed : Cursor}
    (entry : (Phrase.entry keyed item).IsPassed level start c listed)
    (next : NextLexeme listed (.symbol close) d) :
    (Phrase.entries close keyed [item]).IsPassed level start c d := by
  intro closes elements comes
  have comes := (entry _ comes).symbol next (Expected.admits_of_behindSymbol closes).2
  rwa [closes] at comes

theorem isPassed_moreEntries
    {listed following : Cursor}
    (entry : (Phrase.entry keyed item).IsPassed level start c listed)
    (comma : MayTake .comma listed true following)
    (entries : (Phrase.entries close keyed items).IsPassed level start following d) :
    (Phrase.entries close keyed (item :: items)).IsPassed level start c d := by
  intro closes elements comes
  have comes := entries closes _ ((entry _ comes).mayTake comma rfl)
  simpa [outermostOfItems] using comes

theorem isPassed_calledMember
    {word : WordKind}
    (next : NextLexeme c (.word word text) named)
    (opened : NextLexeme named (.symbol .leftParen) behind)
    (reads : Reads level' (.entries .rightParen false items) behind d)
    (entries : (Phrase.entries .rightParen false items).IsPassed level start behind d) :
    (Phrase.member text (some (items.map ArrayItem.toArgument))).IsPassed level start c d := by
  intro elements comes
  have comes := entries rfl _ ((comes.token next rfl).symbol opened rfl)
  rwa [Option.map_some, Option.getD_some,
    outermostOfArguments_toArgument (key_eq_none_of_reads_entries reads)]

theorem isPassed_memberAccess
    {nullsafe : Bool}
    {arguments : Option (List (Argument Expression))}
    (next : NextLexeme c (.symbol (.memberArrow nullsafe)) behind)
    (member : (Phrase.member text arguments).IsPassed level start behind d) :
    (Phrase.access base (memberForm base nullsafe (text, arguments))).IsPassed level start c d := by
  intro elements comes
  have behind : ComesTo level start (elements ++ base.outermost) .member behind := by
    cases nullsafe <;> exact comes.symbol next rfl
  have comes := member _ behind
  cases arguments <;> simpa [memberForm, ExpressionForm.outermost] using comes

theorem isPassed_staticAccess
    {arguments : Option (List (Argument Expression))}
    (next : NextLexeme c (.symbol .doubleColon) behind)
    (member : (Phrase.member text arguments).IsPassed level start behind d) :
    (Phrase.access base (staticMemberForm base (text, arguments))).IsPassed level start c d := by
  intro elements comes
  have comes := member _ (comes.symbol next rfl)
  cases arguments <;> simpa [staticMemberForm, ExpressionForm.outermost] using comes

theorem isPassed_entryAccess
    {index : Option Expression}
    (next : NextLexeme c (.symbol .leftBracket) behind)
    (optional : (Phrase.optional .rightBracket index).IsPassed level start behind middle)
    (closed : NextLexeme middle (.symbol .rightBracket) d) :
    (Phrase.access base (.entry base index)).IsPassed level start c d := by
  intro elements comes
  obtain ⟨expected, admitted, comes⟩ := optional rfl rfl _ (comes.symbol next rfl)
  have comes : ComesTo level start _ .connective d := comes.symbol closed admitted
  simpa [ExpressionForm.outermost] using comes

theorem isPassed_callAccess
    (next : NextLexeme c (.symbol .leftParen) behind)
    (reads : Reads level' (.entries .rightParen false items) behind d)
    (entries : (Phrase.entries .rightParen false items).IsPassed level start behind d) :
    (Phrase.access base (.call base (items.map ArrayItem.toArgument))).IsPassed level start c
      d := by
  intro elements comes
  have comes := entries rfl _ (comes.symbol next rfl)
  rw [← outermostOfArguments_toArgument (key_eq_none_of_reads_entries reads)] at comes
  simpa [ExpressionForm.outermost] using comes

end Rules

/-- A reader of host code goes over it token by token and element by element. -/
theorem Reads.isPassed
    {phrase : Phrase}
    (reads : Reads level' phrase c d)
    (fits : level' ≤ level) :
    phrase.IsPassed level start c d := by
  induction reads with
  | expression _ _ _ operand continuation =>
      intro elements expected allowed comes
      have fits := Nat.le_of_succ_le fits
      exact continuation fits _ (operand fits _ _ allowed comes)
  | stop => exact fun elements comes => comes
  | connect next connects _ _ _ connection continuation =>
      intro elements comes
      obtain ⟨admitted, behind⟩ := admits_of_binding? connects
      have comes := comes.token next admitted
      rw [behind] at comes
      exact continuation fits _ (connection fits _ comes)
  | binary _ operand =>
      intro elements comes
      have comes := operand fits _ .operand rfl comes
      simpa [ExpressionForm.outermost] using comes
  | assign _ _ value =>
      intro elements comes
      have comes := value fits _ .operand rfl comes
      simpa [ExpressionForm.outermost] using comes
  | ternary _ colon _ optional last => exact isPassed_ternary (optional fits) colon (last fits)
  | absent =>
      intro admitted _ elements comes
      exact ⟨.item, admitted, by simpa [outermostOfOption] using comes⟩
  | present _ _ _ part => exact isPassed_present (part fits)
  | markup skipped starts element =>
      intro elements expected allowed comes
      exact comes.markup skipped allowed starts (element.mono fits)
  | not _ _ next _ inner => exact isPassed_sign next rfl rfl (inner fits) rfl
  | negate _ _ next _ inner => exact isPassed_sign next rfl rfl (inner fits) rfl
  | unsigned _ _ _ _ _ _ _ primary accesses =>
      intro elements expected allowed comes
      exact accesses fits _ (primary fits _ _ allowed comes)
  | leaf _ next leaf => exact isPassed_leaf next leaf
  | name _ next _ => exact isPassed_name next
  | arrayCall _ next _ opened _ entries => exact isPassed_arrayCall next opened (entries fits)
  | array _ next _ entries => exact isPassed_array next (entries fits)
  | function _ next _ function => exact isPassed_function next (function fits)
  | parenthesized next _ closed inner => exact isPassed_parenthesized next (inner fits) closed
  | noParameters next => exact fun elements comes => comes.symbol next rfl
  | lastParameter _ _ maybe identifier read _ closed =>
      exact fun elements comes => (comes.parameter maybe identifier read).symbol closed rfl
  | moreParameters _ _ maybe identifier read comma _ parameters =>
      intro elements comes
      exact parameters fits _ ((comes.parameter maybe identifier read).mayTake comma rfl)
  | arrowFunction next _ arrow _ parameters body =>
      exact isPassed_arrowFunction next (parameters fits) arrow (body fits)
  | plainEntry _ ellipsis _ _ value => exact isPassed_plainEntry ellipsis (value fits)
  | keyedEntry _ _ _ next _ key value => exact isPassed_keyedEntry (key fits) next (value fits)
  | noEntries next => exact isPassed_noEntries next
  | lastEntry _ _ _ _ closed entry => exact isPassed_lastEntry (entry fits) closed
  | moreEntries _ _ _ comma _ entry entries =>
      exact isPassed_moreEntries (entry fits) comma (entries fits)
  | plainMember next _ _ =>
      intro elements comes
      have comes : ComesTo level start elements .connective _ := comes.token next rfl
      simpa using comes
  | calledMember next opened reads entries =>
      exact isPassed_calledMember next opened reads (entries fits)
  | memberAccess next _ member => exact isPassed_memberAccess next (member fits)
  | entryAccess next _ closed optional => exact isPassed_entryAccess next (optional fits) closed
  | callAccess next _ reads entries => exact isPassed_callAccess next reads (entries fits)
  | staticAccess next _ _ member => exact isPassed_staticAccess next (member fits)
  | noAccess =>
      intro elements comes
      rwa [Expression.outermost_nameAsConstant]
  | moreAccesses _ _ access accesses =>
      intro elements comes
      exact accesses fits _ (access fits _ comes)
  | _ => trivial

/-- A text that is an expression is gone over up to its end. -/
theorem comesTo_of_ofText
    {text : String}
    {budget : Nat}
    {whole : Expression}
    (read : Expression.ofText text budget = .ok whole) :
    ∃ stop behind, ComesTo budget (.ofText text) whole.outermost .connective stop ∧
      NextLexeme stop .endOfInput behind := by
  obtain ⟨stop, behind, reads, ended⟩ := reads_of_ofText read
  have passed : (Phrase.expression 0 whole).IsPassed budget (.ofText text) (.ofText text) stop :=
    reads.isPassed (Nat.le_refl budget)
  exact ⟨stop, behind, passed [] .operand rfl ⟨.connective, .refl, rfl⟩, ended⟩

end EmbeddedMarkup
