import EmbeddedMarkup.Proofs.Reading.MarkupSoundness
import EmbeddedMarkup.Proofs.Reading.Tokens

/-!
# What the rules derive is read

A derivation by the rules of reading is a promise about the readers: in every stack of modes that
leaves enough levels, and whatever the stream remembers, they yield the phrase, end where the
derivation ends, and leave the modes as they were.  There is one lemma for every rule, and the
promise of a whole derivation follows by induction.
-/

namespace EmbeddedMarkup

open TokenStream

/-- Host code with this many levels of nesting may be read in these modes. -/
structure ModeStack.Admits (modes : ModeStack) (level : Nat) : Prop where
  proper : modes.frames ≠ []
  allowsTags : modes.AllowsTags
  enough : level ≤ modes.levels

/-- What the readers promise about a phrase between two cursors. -/
def Phrase.IsRead (level : Nat) (start stop : Cursor) : Phrase → Prop
  | .expression power whole =>
      ∀ modes stream, modes.Admits level → stream.cursor = start →
        (readExpression power modes stream).Reaches whole modes stop
  | .continuation first power left whole =>
      ∀ modes stream, modes.Admits level → stream.cursor = start →
        (continueExpression first power left modes stream).Reaches whole modes stop
  | .connection binding left form =>
      ∀ modes stream, modes.Admits level → stream.cursor = start →
        (readConnected binding left modes stream).Reaches form modes stop
  | .optional kind part =>
      ∀ modes stream, modes.Admits level → stream.cursor = start →
        (readExpressionUnless kind modes stream).Reaches part modes stop
  | .operand whole =>
      ∀ modes stream, modes.Admits level → stream.cursor = start →
        (readOperand modes stream).Reaches whole modes stop
  | .primary whole =>
      ∀ modes stream, modes.Admits level → stream.cursor = start →
        (readPrimary modes stream).Reaches whole modes stop
  | .parameters list =>
      ∀ modes (stream : TokenStream), stream.cursor = start →
        (stream.readParameters modes).Reaches list modes stop
  | .arrowFunction form =>
      ∀ modes stream, modes.Admits level → stream.cursor = start →
        (readArrowFunction modes stream).Reaches form modes stop
  | .entry keyed item =>
      ∀ modes (stream : TokenStream), modes.Admits level → stream.cursor = start →
        ∃ first, skipTrivia start = ⟨.ok (), first⟩ ∧ item.span = first.spanTo stop ∧
        ∃ inside, (stream.eat .ellipsis modes).Yields item.unpack modes inside ∧
        ∃ value middle, (readExpression 0 modes inside).Yields value modes middle ∧
        (readKeyedValue (keyed && !item.unpack) value modes middle).Reaches
          (item.key, item.value) modes stop
  | .entries close keyed items =>
      ∀ modes stream, modes.Admits level → stream.cursor = start →
        (readEntries close keyed modes stream).Reaches items modes stop
  | .member name arguments =>
      ∀ modes stream, modes.Admits level → stream.cursor = start →
        (readMember modes stream).Reaches (name, arguments) modes stop
  | .access base form =>
      ∀ modes stream first whole behind, modes.Admits level → stream.cursor = start →
        (∀ rest : TokenStream, rest.cursor = stop →
          (continueOperand first ⟨form, first.spanTo stop⟩ modes rest).Reaches
            whole modes behind) →
        (continueOperand first base modes stream).Reaches whole modes behind
  | .accesses first base whole =>
      ∀ modes stream, modes.Admits level → stream.cursor = start →
        (continueOperand first base modes stream).Reaches whole modes stop
  | .element tree =>
      ∀ remembers limit modes ahead, modes.Admits level →
        (readElementBehind (hostBehind remembers limit) modes start ahead).Yields
          tree modes stop
  | .header whole =>
      ∀ remembers limit modes depth ahead opened,
        modes.mode = .tagHeader depth → level ≤ modes.levels →
        (readHeader (hostBehind remembers limit) modes start ahead opened).Yields
          whole modes stop
  | .headerTail tail =>
      ∀ remembers limit modes depth ahead tag opened,
        modes.mode = .tagHeader depth → level ≤ modes.levels →
        (readHeaderTail (hostBehind remembers limit) modes start ahead tag opened).Yields
          tail modes stop
  | .attribute item =>
      (∃ first, start.peek? = some first ∧ isNameDelimiter first = false) ∧
      ∀ remembers limit modes depth ahead tag,
        modes.mode = .tagHeader depth → level ≤ modes.levels →
        (readAttribute (hostBehind remembers limit) modes start ahead tag).Yields
          item modes stop
  | .attributeValue value =>
      ∀ remembers limit modes depth ahead name,
        modes.mode = .tagHeader depth → level ≤ modes.levels →
        (readAttributeValue (hostBehind remembers limit) modes start ahead name).Yields
          value modes stop
  | .hole part =>
      ∀ remembers limit modes owner depth ahead,
        modes.mode = HoleOwner.frame owner depth → level ≤ modes.levels →
        (readHole (hostBehind remembers limit) modes start ahead).Yields part modes stop
  | .spread whole =>
      ∀ remembers limit modes owner depth ahead,
        modes.mode = HoleOwner.frame owner depth → level ≤ modes.levels →
        (readSpread (hostBehind remembers limit) modes start ahead).Yields whole modes stop
  | .braces child =>
      ∀ remembers limit modes depth ahead,
        modes.mode = .tagContent depth → level ≤ modes.levels →
        (readBraces (hostBehind remembers limit) modes start ahead).Yields child modes stop
  | .content name left children =>
      ∀ remembers limit modes depth ahead opened,
        modes.mode = .tagContent depth → level ≤ modes.levels →
        (readContentBehind (hostBehind remembers limit) modes start ahead name opened left).Yields
          (children, name) modes stop

/-- Fewer levels are admitted too. -/
theorem ModeStack.Admits.mono
    {modes : ModeStack}
    {level fewer : Nat}
    (admits : modes.Admits level)
    (fits : fewer ≤ level) :
    modes.Admits fewer :=
  ⟨admits.proper, admits.allowsTags, Nat.le_trans fits admits.enough⟩

/-- An expression leaves one level fewer to its parts. -/
theorem ModeStack.Admits.charged
    {modes : ModeStack}
    {level : Nat}
    (admits : modes.Admits (level + 1)) :
    modes.charged.Admits level where
  proper := admits.proper
  allowsTags := admits.allowsTags
  enough := by
    have enough := admits.enough
    rw [ModeStack.levels_charged]
    omega

/-- A hole admits what its tag leaves room for. -/
theorem ModeStack.admits_push_hole
    {modes : ModeStack}
    {level depth : Nat}
    {owner : HoleOwner}
    (inside : modes.mode = owner.frame depth)
    (enough : level ≤ modes.levels) :
    (modes.push (.expressionHole depth owner)).Admits level where
  proper := ModeStack.frames_push_ne_nil _ _
  allowsTags := by
    intro depth
    simp
  enough := by
    rwa [ModeStack.levels_push_hole inside]

section Expressions

open StreamOutcome

variable
  {level power : Nat}
  {c start behind middle d : Cursor}
  {left whole inner : Expression}
  {lexeme : Lexeme}

theorem isRead_expression
    (skipped : skipTrivia c = ⟨.ok (), start⟩)
    (operand : (Phrase.operand left).IsRead level c behind)
    (continuation : (Phrase.continuation start power left whole).IsRead level behind d) :
    (Phrase.expression power whole).IsRead (level + 1) c d := by
  rintro modes stream admits rfl
  rw [readExpression]
  refine reaches_onNextStart_of_skipTrivia skipped fun _ => ?_
  have enough : 0 < modes.levels := Nat.lt_of_lt_of_le (Nat.succ_pos level) admits.enough
  have entered : ModeStack.enterExpression start.position modes = .ok () modes.charged :=
    ModeStack.enterExpression_eq_ok.mpr ⟨enough, rfl⟩
  simp only [entered]
  rw [reaches_mapModes]
  refine ⟨modes.charged, ?_, ModeStack.exitExpression_charged modes⟩
  refine (operand _ _ admits.charged rfl).andThen fun next _ reached => ?_
  rw [reaches_weaken]
  exact continuation _ _ admits.charged reached

theorem isRead_stop
    (next : NextLexeme c lexeme behind)
    (weak : ∀ binding, lexeme.binding? = some binding → binding.left < power) :
    (Phrase.continuation start power left left).IsRead level c c := by
  rintro modes stream admits rfl
  rw [continueExpression]
  refine reaches_onLook_of_nextLexeme next fun view found _ => ?_
  have here := view.here_cursor
  split
  · exact reaches_success.mpr ⟨rfl, rfl, here⟩
  · rename_i binding connects
    rw [if_pos (weak binding (found ▸ connects))]
    exact reaches_success.mpr ⟨rfl, rfl, here⟩

theorem isRead_connect
    {form : ExpressionForm Expression}
    {binding : Binding}
    (next : NextLexeme c lexeme behind)
    (connects : lexeme.binding? = some binding)
    (strong : power ≤ binding.left)
    (connection : (Phrase.connection binding left form).IsRead level behind middle)
    (continuation : (Phrase.continuation start power ⟨form, start.spanTo middle⟩ whole).IsRead
      level middle d) :
    (Phrase.continuation start power left whole).IsRead level c d := by
  rintro modes stream admits rfl
  rw [continueExpression]
  refine reaches_onLook_of_nextLexeme next fun view found reached => ?_
  split
  · rename_i unconnected
    rw [found, connects] at unconnected
    cases unconnected
  · rename_i binding' connects'
    rw [found, connects] at connects'
    cases connects'
    rw [if_neg (Nat.not_lt_of_le strong)]
    refine (connection _ _ admits reached).andThen ?_
    rintro next _ rfl
    rw [reaches_weaken]
    exact continuation _ _ admits rfl

theorem isRead_binary
    {operator : BinaryOperator}
    {leftPower rightPower : Nat}
    (operand : (Phrase.expression rightPower inner).IsRead level c d) :
    (Phrase.connection ⟨.binary operator, leftPower, rightPower⟩ left
      (.binary operator left inner)).IsRead level c d := by
  rintro modes stream admits rfl
  rw [readConnected]
  exact reaches_map.mpr ⟨_, operand _ _ admits rfl, rfl⟩

theorem isRead_assign
    {leftPower rightPower : Nat}
    (assignable : left.isAssignable = true)
    (value : (Phrase.expression rightPower inner).IsRead level c d) :
    (Phrase.connection ⟨.assign, leftPower, rightPower⟩ left (.assign left inner)).IsRead
      level c d := by
  rintro modes stream admits rfl
  rw [readConnected]
  dsimp only
  rw [if_pos assignable]
  exact reaches_map.mpr ⟨_, value _ _ admits rfl, rfl⟩

theorem isRead_ternary
    {leftPower rightPower : Nat}
    {ifTrue : Option Expression}
    {ifFalse : Expression}
    (optional : (Phrase.optional .colon ifTrue).IsRead level c middle)
    (colon : NextLexeme middle (.symbol .colon) behind)
    (last : (Phrase.expression rightPower ifFalse).IsRead level behind d) :
    (Phrase.connection ⟨.ternary, leftPower, rightPower⟩ left
      (.ternary left ifTrue ifFalse)).IsRead level c d := by
  rintro modes stream admits rfl
  rw [readConnected]
  refine (optional _ _ admits rfl).andThen fun next _ reached => ?_
  refine (reaches_expect.mpr ⟨rfl, reached ▸ colon⟩).andThen fun next _ reached => ?_
  rw [reaches_weaken]
  exact reaches_map.mpr ⟨_, last _ _ admits reached, rfl⟩

theorem isRead_absent
    {kind : Symbol}
    (next : NextLexeme c (.symbol kind) behind) :
    (Phrase.optional kind none).IsRead level c c := by
  rintro modes stream admits rfl
  rw [readExpressionUnless]
  refine reaches_onLook_of_nextLexeme next fun view found _ => ?_
  rw [if_pos found]
  exact reaches_success.mpr ⟨rfl, rfl, view.here_cursor⟩

theorem isRead_present
    {kind : Symbol}
    (next : NextLexeme c lexeme behind)
    (other : lexeme ≠ .symbol kind)
    (part : (Phrase.expression 0 inner).IsRead level c d) :
    (Phrase.optional kind (some inner)).IsRead level c d := by
  rintro modes stream admits rfl
  rw [readExpressionUnless]
  refine reaches_onLook_of_nextLexeme next fun view found _ => ?_
  rw [if_neg (found ▸ other), reaches_weaken]
  exact reaches_map.mpr ⟨_, part _ _ admits view.here_cursor, rfl⟩

theorem isRead_markup
    {element : Element Expression}
    (skipped : skipTrivia c = ⟨.ok (), start⟩)
    (tag : startsMarkup start.rest = true)
    (reads : (Phrase.element element).IsRead level start d) :
    (Phrase.operand ⟨.markup element, start.spanTo d⟩).IsRead level c d := by
  rintro modes stream admits rfl
  rw [readOperand]
  refine reaches_onNextStart_of_skipTrivia skipped fun _ => ?_
  rw [if_pos tag]
  obtain ⟨passed, found⟩ := reads stream.remembers start modes start.le_refl admits
  unfold hostBehind at found
  rw [found]
  exact reaches_success.mpr ⟨rfl, rfl, rfl⟩

/-- What is read for a form makes an expression that ends where reading stopped. -/
theorem reaches_spanned
    {α : Type}
    {P Q : Cursor → Prop}
    {outcome : StreamOutcome P α}
    {value : α}
    {make : α → ExpressionForm Expression}
    {modes : ModeStack}
    {passes : ∀ next : TokenStream, P next.cursor → Q next.cursor}
    (read : outcome.Reaches value modes d) :
    (outcome.andThen fun value modes next reached =>
      (.success ⟨make value, start.spanTo next.cursor⟩ modes next (passes next reached) :
        StreamOutcome Q Expression)).Reaches ⟨make value, start.spanTo d⟩ modes d := by
  refine read.andThen ?_
  rintro next _ rfl
  exact reaches_success.mpr ⟨rfl, rfl, rfl⟩

theorem isRead_signed
    {kind : Symbol}
    {form : Expression → ExpressionForm Expression}
    (sign : IsSign kind form)
    (skipped : skipTrivia c = ⟨.ok (), start⟩)
    (plain : startsMarkup start.rest = false)
    (next : NextLexeme c (.symbol kind) behind)
    (operand : (Phrase.expression signPower inner).IsRead level behind d) :
    (Phrase.operand ⟨form inner, start.spanTo d⟩).IsRead level c d := by
  rintro modes stream admits rfl
  rw [readOperand]
  refine reaches_onNextStart_of_skipTrivia skipped fun _ => ?_
  rw [if_neg (Bool.eq_false_iff.mp plain)]
  refine reaches_onLook_of_nextLexeme next fun view found reached => ?_
  split
  · rename_i not
    cases sign with
    | not => exact reaches_spanned (operand _ _ admits reached)
    | negate => cases found.symm.trans not
  · rename_i minus
    cases sign with
    | not => cases found.symm.trans minus
    | negate => exact reaches_spanned (operand _ _ admits reached)
  · rename_i noNot noMinus
    cases sign with
    | not => exact absurd found noNot
    | negate => exact absurd found noMinus

theorem isRead_unsigned
    {base : Expression}
    {after : Cursor}
    (skipped : skipTrivia c = ⟨.ok (), start⟩)
    (plain : startsMarkup start.rest = false)
    (next : NextLexeme c lexeme after)
    (noNot : lexeme ≠ .symbol .not)
    (noMinus : lexeme ≠ .symbol .minus)
    (primary : (Phrase.primary base).IsRead level c behind)
    (accesses : (Phrase.accesses start base whole).IsRead level behind d) :
    (Phrase.operand whole).IsRead level c d := by
  rintro modes stream admits rfl
  rw [readOperand]
  refine reaches_onNextStart_of_skipTrivia skipped fun _ => ?_
  rw [if_neg (Bool.eq_false_iff.mp plain)]
  refine reaches_onLook_of_nextLexeme next fun view found _ => ?_
  split
  · rename_i not
    exact absurd (found.symm.trans not) noNot
  · rename_i minus
    exact absurd (found.symm.trans minus) noMinus
  · refine (primary _ _ admits view.here_cursor).andThen fun next _ reached => ?_
    rw [reaches_weaken]
    exact accesses _ _ admits reached

theorem isRead_leaf
    {form : ExpressionForm Expression}
    (skipped : skipTrivia c = ⟨.ok (), start⟩)
    (next : NextLexeme c lexeme d)
    (leaf : lexeme.leaf? = some form) :
    (Phrase.primary ⟨form, start.spanTo d⟩).IsRead level c d := by
  rintro modes stream admits rfl
  rw [readPrimary]
  refine reaches_onNextStart_of_skipTrivia skipped fun _ => ?_
  refine reaches_onLook_of_nextLexeme next ?_
  rintro ⟨⟨lexeme, span⟩, here, after, atHere, _, _⟩ rfl rfl
  cases lexeme <;> cases leaf <;> exact reaches_success.mpr ⟨rfl, rfl, rfl⟩

/-- A word that is a name is looked at again only if it may start an array. -/
theorem isRead_name
    {text : String}
    (skipped : skipTrivia c = ⟨.ok (), start⟩)
    (next : NextLexeme c (.word .identifier text) d)
    (alone : sameWord text "array" = true →
      ∃ lexeme behind, NextLexeme d lexeme behind ∧ lexeme ≠ .symbol .leftParen) :
    (Phrase.primary ⟨.bareName text, start.spanTo d⟩).IsRead level c d := by
  rintro modes stream admits rfl
  rw [readPrimary]
  refine reaches_onNextStart_of_skipTrivia skipped fun _ => ?_
  refine reaches_onLook_of_nextLexeme next ?_
  rintro ⟨⟨_, span⟩, here, after, atHere, _, _⟩ rfl rfl
  dsimp only
  split
  · rename_i array
    obtain ⟨lexeme, behind, following, unopened⟩ := alone array
    refine reaches_onLook_of_nextLexeme following fun view found _ => ?_
    rw [dif_neg (found ▸ unopened)]
    refine reaches_success.mpr ⟨?_, rfl, view.here_cursor⟩
    rw [view.here_cursor]
  · exact reaches_success.mpr ⟨rfl, rfl, rfl⟩

theorem isRead_arrayCall
    {text : String}
    {items : List (ArrayItem Expression)}
    {named : Cursor}
    (skipped : skipTrivia c = ⟨.ok (), start⟩)
    (next : NextLexeme c (.word .identifier text) named)
    (array : sameWord text "array" = true)
    (opened : NextLexeme named (.symbol .leftParen) behind)
    (entries : (Phrase.entries .rightParen true items).IsRead level behind d) :
    (Phrase.primary ⟨.array items, start.spanTo d⟩).IsRead level c d := by
  rintro modes stream admits rfl
  rw [readPrimary]
  refine reaches_onNextStart_of_skipTrivia skipped fun _ => ?_
  refine reaches_onLook_of_nextLexeme next ?_
  rintro ⟨⟨_, span⟩, here, after, atHere, _, _⟩ rfl rfl
  dsimp only
  rw [if_pos array]
  refine reaches_onLook_of_nextLexeme opened fun view found reached => ?_
  rw [dif_pos found]
  exact reaches_spanned (entries _ _ admits reached)

theorem isRead_array
    {items : List (ArrayItem Expression)}
    (skipped : skipTrivia c = ⟨.ok (), start⟩)
    (opened : NextLexeme c (.symbol .leftBracket) behind)
    (entries : (Phrase.entries .rightBracket true items).IsRead level behind d) :
    (Phrase.primary ⟨.array items, start.spanTo d⟩).IsRead level c d := by
  rintro modes stream admits rfl
  rw [readPrimary]
  refine reaches_onNextStart_of_skipTrivia skipped fun _ => ?_
  refine reaches_onLook_of_nextLexeme opened ?_
  rintro ⟨⟨_, span⟩, here, after, atHere, _, _⟩ rfl rfl
  exact reaches_spanned (entries _ _ admits rfl)

theorem isRead_function
    {text : String}
    {form : ExpressionForm Expression}
    (skipped : skipTrivia c = ⟨.ok (), start⟩)
    (next : NextLexeme c (.word .fn text) behind)
    (arrow : (Phrase.arrowFunction form).IsRead level behind d) :
    (Phrase.primary ⟨form, start.spanTo d⟩).IsRead level c d := by
  rintro modes stream admits rfl
  rw [readPrimary]
  refine reaches_onNextStart_of_skipTrivia skipped fun _ => ?_
  refine reaches_onLook_of_nextLexeme next ?_
  rintro ⟨⟨_, span⟩, here, after, atHere, _, _⟩ rfl rfl
  exact reaches_spanned (arrow _ _ admits rfl)

theorem isRead_parenthesized
    (opened : NextLexeme c (.symbol .leftParen) behind)
    (reads : (Phrase.expression 0 inner).IsRead level behind middle)
    (closed : NextLexeme middle (.symbol .rightParen) d) :
    (Phrase.primary inner).IsRead level c d := by
  rintro modes stream admits rfl
  rw [readPrimary]
  obtain ⟨start, skipped⟩ := opened.skipTrivia
  refine reaches_onNextStart_of_skipTrivia skipped fun _ => ?_
  refine reaches_onLook_of_nextLexeme opened ?_
  rintro ⟨⟨_, span⟩, here, after, atHere, _, _⟩ rfl rfl
  refine (reads _ _ admits rfl).andThen fun next _ reached => ?_
  rw [reaches_weaken]
  exact reaches_map.mpr ⟨(), reaches_expect.mpr ⟨rfl, reached ▸ closed⟩, rfl⟩

theorem isRead_noParameters
    (closed : NextLexeme c (.symbol .rightParen) d) :
    (Phrase.parameters []).IsRead level c d := by
  rintro modes stream rfl
  rw [readParameters]
  refine reaches_onLook_of_nextLexeme closed fun view found reached => ?_
  rw [dif_pos found]
  exact reaches_success.mpr ⟨rfl, rfl, reached⟩

/-- One parameter, and then what a comma decides. -/
theorem reaches_readParameters
    {nullable more : Bool}
    {parameter : Parameter}
    {list : List Parameter}
    {modes : ModeStack}
    {stream : TokenStream}
    {after typed named listed next : Cursor}
    (ahead : NextLexeme stream.cursor lexeme after)
    (other : lexeme ≠ .symbol .rightParen)
    (question : MayTake .question stream.cursor nullable typed)
    (identifier : MayTakeIdentifier typed named)
    (read : readToken named = ⟨.ok ⟨.variable parameter.name, parameter.span⟩, listed⟩)
    (comma : MayTake .comma listed more next)
    (rest : ∀ following : TokenStream, following.cursor = next →
      if more then
        ∃ others, (following.readParameters modes).Reaches others modes d ∧
          list = parameter :: others
      else NextLexeme next (.symbol .rightParen) d ∧ list = [parameter]) :
    (stream.readParameters modes).Reaches list modes d := by
  rw [readParameters]
  refine reaches_onLook_of_nextLexeme ahead fun view found _ => ?_
  rw [dif_neg (found ▸ other)]
  have eaten : (view.here.eat .question modes).Reaches nullable modes typed :=
    reaches_eat.mpr ⟨rfl, by rwa [view.here_cursor]⟩
  refine eaten.andThen fun _ _ atTyped => ?_
  refine (reaches_eatIdentifier.mpr ⟨rfl, atTyped ▸ identifier⟩).andThen fun _ _ atNamed => ?_
  refine (reaches_expectVariable.mpr ⟨rfl, atNamed ▸ read⟩).andThen fun _ _ atListed => ?_
  refine (reaches_eat.mpr ⟨rfl, atListed ▸ comma⟩).andThen fun following _ atNext => ?_
  have rest := rest following atNext
  cases more with
  | true =>
      obtain ⟨others, reaches, rfl⟩ := rest
      rw [if_pos rfl, reaches_weaken]
      exact reaches_map.mpr ⟨others, reaches, rfl⟩
  | false =>
      obtain ⟨closed, rfl⟩ := rest
      rw [if_neg Bool.false_ne_true, reaches_weaken]
      exact reaches_map.mpr ⟨(), reaches_expect.mpr ⟨rfl, atNext ▸ closed⟩, rfl⟩

theorem isRead_lastParameter
    {nullable : Bool}
    {name : String}
    {span : Span}
    {after typed named listed : Cursor}
    (ahead : NextLexeme c lexeme after)
    (other : lexeme ≠ .symbol .rightParen)
    (question : MayTake .question c nullable typed)
    (identifier : MayTakeIdentifier typed named)
    (read : readToken named = ⟨.ok ⟨.variable name, span⟩, listed⟩)
    (comma : MayTake .comma listed false listed)
    (closed : NextLexeme listed (.symbol .rightParen) d) :
    (Phrase.parameters [⟨name, span⟩]).IsRead level c d := by
  rintro modes stream rfl
  refine reaches_readParameters ahead other question identifier ?_ comma
    fun _ _ => ⟨closed, rfl⟩
  exact read

theorem isRead_moreParameters
    {nullable : Bool}
    {name : String}
    {span : Span}
    {list : List Parameter}
    {after typed named listed next : Cursor}
    (ahead : NextLexeme c lexeme after)
    (other : lexeme ≠ .symbol .rightParen)
    (question : MayTake .question c nullable typed)
    (identifier : MayTakeIdentifier typed named)
    (read : readToken named = ⟨.ok ⟨.variable name, span⟩, listed⟩)
    (comma : MayTake .comma listed true next)
    (rest : (Phrase.parameters list).IsRead level next d) :
    (Phrase.parameters (⟨name, span⟩ :: list)).IsRead level c d := by
  rintro modes stream rfl
  refine reaches_readParameters ahead other question identifier ?_ comma
    fun following atNext => ⟨list, rest modes following atNext, rfl⟩
  exact read

theorem isRead_arrowFunction
    {list : List Parameter}
    {opened closed arrow : Cursor}
    (paren : NextLexeme c (.symbol .leftParen) opened)
    (parameters : (Phrase.parameters list).IsRead level opened closed)
    (doubleArrow : NextLexeme closed (.symbol .doubleArrow) arrow)
    (body : (Phrase.expression 0 inner).IsRead level arrow d) :
    (Phrase.arrowFunction (.arrowFunction list inner)).IsRead level c d := by
  rintro modes stream admits rfl
  rw [readArrowFunction]
  refine (reaches_expect.mpr ⟨rfl, paren⟩).andThen fun _ _ atOpened => ?_
  refine (parameters _ _ atOpened).andThen fun _ _ atClosed => ?_
  refine (reaches_expect.mpr ⟨rfl, atClosed ▸ doubleArrow⟩).andThen fun _ _ atArrow => ?_
  rw [reaches_weaken]
  exact reaches_map.mpr ⟨_, body _ _ admits atArrow, rfl⟩

theorem isRead_plainEntry
    {keyed unpack : Bool}
    {first : Cursor}
    (skipped : skipTrivia c = ⟨.ok (), start⟩)
    (dots : MayTake .ellipsis c unpack first)
    (value : (Phrase.expression 0 inner).IsRead level first d)
    (unarrowed : (keyed && !unpack) = true → MayTake .doubleArrow d false d) :
    (Phrase.entry keyed ⟨none, inner, unpack, start.spanTo d⟩).IsRead level c d := by
  rintro modes stream admits rfl
  obtain ⟨inside, eaten, atFirst⟩ :
      (stream.eat .ellipsis modes).Reaches unpack modes first := reaches_eat.mpr ⟨rfl, dots⟩
  obtain ⟨middle, read, rfl⟩ := value modes inside admits atFirst
  refine ⟨start, skipped, rfl, inside, eaten, inner, middle, read, ?_⟩
  rw [readKeyedValue]
  split
  · rename_i allowed
    refine (reaches_eat.mpr ⟨rfl, unarrowed allowed⟩).andThen fun rest _ reached => ?_
    exact reaches_success.mpr ⟨rfl, rfl, reached⟩
  · exact reaches_success.mpr ⟨rfl, rfl, rfl⟩

theorem isRead_keyedEntry
    {key : Expression}
    {arrow : Cursor}
    (skipped : skipTrivia c = ⟨.ok (), start⟩)
    (dots : MayTake .ellipsis c false c)
    (first : (Phrase.expression 0 key).IsRead level c arrow)
    (arrowed : NextLexeme arrow (.symbol .doubleArrow) behind)
    (second : (Phrase.expression 0 inner).IsRead level behind d) :
    (Phrase.entry true ⟨some key, inner, false, start.spanTo d⟩).IsRead level c d := by
  rintro modes stream admits rfl
  obtain ⟨inside, eaten, atFirst⟩ :
      (stream.eat .ellipsis modes).Reaches false modes stream.cursor :=
    reaches_eat.mpr ⟨rfl, dots⟩
  obtain ⟨middle, read, rfl⟩ := first modes inside admits atFirst
  refine ⟨start, skipped, rfl, inside, eaten, key, middle, read, ?_⟩
  rw [readKeyedValue]
  simp only [Bool.not_false, Bool.and_self, if_true]
  refine (reaches_eat.mpr ⟨rfl, .taken arrowed⟩).andThen fun rest _ reached => ?_
  rw [if_pos rfl, reaches_weaken]
  exact reaches_map.mpr ⟨inner, second modes rest admits reached, rfl⟩

theorem isRead_noEntries
    {close : Symbol}
    {keyed : Bool}
    (closed : NextLexeme c (.symbol close) d) :
    (Phrase.entries close keyed []).IsRead level c d := by
  rintro modes stream admits rfl
  rw [readEntries]
  refine reaches_onLook_of_nextLexeme closed fun view found reached => ?_
  rw [dif_pos found]
  exact reaches_success.mpr ⟨rfl, rfl, reached⟩

/-- One entry, and then what a comma decides. -/
theorem reaches_readEntries
    {close : Symbol}
    {keyed more : Bool}
    {item : ArrayItem Expression}
    {items : List (ArrayItem Expression)}
    {modes : ModeStack}
    {stream : TokenStream}
    {after listed next : Cursor}
    (admits : modes.Admits level)
    (ahead : NextLexeme stream.cursor lexeme after)
    (other : lexeme ≠ .symbol close)
    (entry : (Phrase.entry keyed item).IsRead level stream.cursor listed)
    (comma : MayTake .comma listed more next)
    (rest : ∀ following : TokenStream, following.cursor = next →
      if more then
        ∃ others, (readEntries close keyed modes following).Reaches others modes d ∧
          items = item :: others
      else NextLexeme next (.symbol close) d ∧ items = [item]) :
    (readEntries close keyed modes stream).Reaches items modes d := by
  rw [readEntries]
  refine reaches_onLook_of_nextLexeme ahead fun view found _ => ?_
  rw [dif_neg (found ▸ other)]
  obtain ⟨start, skipped, span, inside, eaten, value, middle, read, keyedValue⟩ :=
    entry modes view.here admits view.here_cursor
  obtain ⟨key, value', unpack, _⟩ := item
  subst span
  refine reaches_onNextStart_of_skipTrivia (view.here_cursor ▸ skipped) fun _ => ?_
  refine reaches_andThen.mpr ⟨_, _, inside, eaten, eaten.elim fun reached _ => ⟨reached, ?_⟩⟩
  refine reaches_andThen.mpr ⟨_, _, middle, read, read.elim fun reached _ => ⟨reached, ?_⟩⟩
  refine keyedValue.andThen ?_
  rintro listed' _ rfl
  refine (reaches_eat.mpr ⟨rfl, comma⟩).andThen fun following _ atNext => ?_
  have rest := rest following atNext
  cases more with
  | true =>
      obtain ⟨others, reaches, rfl⟩ := rest
      rw [if_pos rfl, reaches_weaken]
      exact reaches_map.mpr ⟨others, reaches, rfl⟩
  | false =>
      obtain ⟨closed, rfl⟩ := rest
      rw [if_neg Bool.false_ne_true, reaches_weaken]
      exact reaches_map.mpr ⟨(), reaches_expect.mpr ⟨rfl, atNext ▸ closed⟩, rfl⟩

theorem isRead_lastEntry
    {close : Symbol}
    {keyed : Bool}
    {item : ArrayItem Expression}
    {after listed : Cursor}
    (ahead : NextLexeme c lexeme after)
    (other : lexeme ≠ .symbol close)
    (entry : (Phrase.entry keyed item).IsRead level c listed)
    (comma : MayTake .comma listed false listed)
    (closed : NextLexeme listed (.symbol close) d) :
    (Phrase.entries close keyed [item]).IsRead level c d := by
  rintro modes stream admits rfl
  exact reaches_readEntries admits ahead other entry comma fun _ _ => ⟨closed, rfl⟩

theorem isRead_moreEntries
    {close : Symbol}
    {keyed : Bool}
    {item : ArrayItem Expression}
    {items : List (ArrayItem Expression)}
    {after listed next : Cursor}
    (ahead : NextLexeme c lexeme after)
    (other : lexeme ≠ .symbol close)
    (entry : (Phrase.entry keyed item).IsRead level c listed)
    (comma : MayTake .comma listed true next)
    (rest : (Phrase.entries close keyed items).IsRead level next d) :
    (Phrase.entries close keyed (item :: items)).IsRead level c d := by
  rintro modes stream admits rfl
  exact reaches_readEntries admits ahead other entry comma
    fun following atNext => ⟨items, rest modes following admits atNext, rfl⟩

theorem isRead_plainMember
    {kind : WordKind}
    {name : String}
    (word : NextLexeme c (.word kind name) d)
    (next : NextLexeme d lexeme behind)
    (uncalled : lexeme ≠ .symbol .leftParen) :
    (Phrase.member name none).IsRead level c d := by
  rintro modes stream admits rfl
  rw [readMember]
  refine (reaches_expectMemberName.mpr ⟨rfl, kind, word⟩).andThen fun rest _ reached => ?_
  refine reaches_onLook_of_nextLexeme (reached ▸ next) fun view found _ => ?_
  rw [dif_neg (found ▸ uncalled)]
  exact reaches_success.mpr ⟨rfl, rfl, view.here_cursor.trans reached⟩

theorem isRead_calledMember
    {kind : WordKind}
    {name : String}
    {items : List (ArrayItem Expression)}
    {named : Cursor}
    (word : NextLexeme c (.word kind name) named)
    (opened : NextLexeme named (.symbol .leftParen) behind)
    (entries : (Phrase.entries .rightParen false items).IsRead level behind d) :
    (Phrase.member name (some (items.map ArrayItem.toArgument))).IsRead level c d := by
  rintro modes stream admits rfl
  rw [readMember]
  refine (reaches_expectMemberName.mpr ⟨rfl, kind, word⟩).andThen fun rest _ reached => ?_
  refine reaches_onLook_of_nextLexeme (reached ▸ opened) fun view found reached => ?_
  rw [dif_pos found, reaches_weaken, readArguments]
  exact reaches_map.mpr ⟨_, reaches_map.mpr ⟨items, entries _ _ admits reached, rfl⟩, rfl⟩

/-- Behind an access that is read the reader goes on with what it made. -/
theorem reaches_goOn
    {P Q : Cursor → Prop}
    {outcome : StreamOutcome P (ExpressionForm Expression)}
    {form : ExpressionForm Expression}
    {modes : ModeStack}
    {stop : Cursor}
    {passes : ∀ next : TokenStream, P next.cursor → ∀ stop, next.cursor ≤ stop → Q stop}
    (read : outcome.Reaches form modes d)
    (goesOn : ∀ rest : TokenStream, rest.cursor = d →
      (continueOperand start ⟨form, start.spanTo d⟩ modes rest).Reaches whole modes stop) :
    (outcome.andThen fun form modes next reached =>
      (continueOperand start ⟨form, start.spanTo next.cursor⟩ modes next).weaken
        (passes next reached)).Reaches whole modes stop := by
  refine read.andThen ?_
  rintro rest _ rfl
  exact reaches_weaken.mpr (goesOn rest rfl)

theorem isRead_memberAccess
    {base : Expression}
    {nullsafe : Bool}
    {name : String}
    {arguments : Option (List (Argument Expression))}
    (arrow : NextLexeme c (.symbol (.memberArrow nullsafe)) behind)
    (member : (Phrase.member name arguments).IsRead level behind d) :
    (Phrase.access base (memberForm base nullsafe (name, arguments))).IsRead level c d := by
  rintro modes stream first whole stop admits rfl goesOn
  rw [continueOperand]
  refine reaches_onLook_of_nextLexeme arrow ?_
  rintro ⟨⟨_, span⟩, here, after, atHere, _, _⟩ rfl rfl
  have read := member modes after admits rfl
  cases nullsafe with
  | false => exact reaches_goOn (reaches_weaken.mpr (reaches_map.mpr ⟨_, read, rfl⟩)) goesOn
  | true => exact reaches_goOn (reaches_weaken.mpr (reaches_map.mpr ⟨_, read, rfl⟩)) goesOn

theorem isRead_entryAccess
    {base : Expression}
    {index : Option Expression}
    (opened : NextLexeme c (.symbol .leftBracket) behind)
    (optional : (Phrase.optional .rightBracket index).IsRead level behind middle)
    (closed : NextLexeme middle (.symbol .rightBracket) d) :
    (Phrase.access base (.entry base index)).IsRead level c d := by
  rintro modes stream first whole stop admits rfl goesOn
  rw [continueOperand]
  refine reaches_onLook_of_nextLexeme opened ?_
  rintro ⟨⟨_, span⟩, here, after, atHere, _, _⟩ rfl rfl
  refine reaches_goOn ((optional modes after admits rfl).andThen fun rest _ reached => ?_) goesOn
  exact reaches_weaken.mpr
    (reaches_map.mpr ⟨(), reaches_expect.mpr ⟨rfl, reached ▸ closed⟩, rfl⟩)

theorem isRead_callAccess
    {base : Expression}
    {items : List (ArrayItem Expression)}
    (opened : NextLexeme c (.symbol .leftParen) behind)
    (callable : base.isCallable = true)
    (entries : (Phrase.entries .rightParen false items).IsRead level behind d) :
    (Phrase.access base (.call base (items.map ArrayItem.toArgument))).IsRead level c d := by
  rintro modes stream first whole stop admits rfl goesOn
  rw [continueOperand]
  refine reaches_onLook_of_nextLexeme opened ?_
  rintro ⟨⟨_, span⟩, here, after, atHere, _, _⟩ rfl rfl
  dsimp only
  rw [if_pos callable, readArguments]
  have read := entries modes after admits rfl
  exact reaches_goOn (reaches_weaken.mpr (reaches_map.mpr
    ⟨_, reaches_map.mpr ⟨items, read, rfl⟩, rfl⟩)) goesOn

theorem isRead_staticAccess
    {base : Expression}
    {name : String}
    {arguments : Option (List (Argument Expression))}
    (colons : NextLexeme c (.symbol .doubleColon) behind)
    (isName : base.isName = true)
    (member : (Phrase.member name arguments).IsRead level behind d) :
    (Phrase.access base (staticMemberForm base (name, arguments))).IsRead level c d := by
  rintro modes stream first whole stop admits rfl goesOn
  rw [continueOperand]
  refine reaches_onLook_of_nextLexeme colons ?_
  rintro ⟨⟨_, span⟩, here, after, atHere, _, _⟩ rfl rfl
  dsimp only
  rw [if_pos isName]
  have read := member modes after admits rfl
  exact reaches_goOn (reaches_weaken.mpr (reaches_map.mpr ⟨_, read, rfl⟩)) goesOn

theorem isRead_noAccess
    {base : Expression}
    (next : NextLexeme c lexeme behind)
    (unaccessed : lexeme.accesses base = false) :
    (Phrase.accesses start base base.nameAsConstant).IsRead level c c := by
  rintro modes stream admits rfl
  rw [continueOperand]
  refine reaches_onLook_of_nextLexeme next ?_
  rintro ⟨⟨_, span⟩, here, after, atHere, _, _⟩ rfl rfl
  dsimp only at unaccessed ⊢
  split
  · cases unaccessed
  · cases unaccessed
  · cases unaccessed
  · have uncallable : base.isCallable = false := unaccessed
    rw [if_neg (Bool.eq_false_iff.mp uncallable)]
    exact reaches_success.mpr ⟨rfl, rfl, atHere⟩
  · have noName : base.isName = false := unaccessed
    rw [if_neg (Bool.eq_false_iff.mp noName)]
    exact reaches_success.mpr ⟨rfl, rfl, atHere⟩
  · exact reaches_success.mpr ⟨rfl, rfl, atHere⟩

theorem isRead_moreAccesses
    {base : Expression}
    {form : ExpressionForm Expression}
    (access : (Phrase.access base form).IsRead level c middle)
    (accesses : (Phrase.accesses start ⟨form, start.spanTo middle⟩ whole).IsRead level middle d) :
    (Phrase.accesses start base whole).IsRead level c d := by
  intro modes stream admits reached
  exact access modes stream start whole d admits reached
    fun rest atMiddle => accesses modes rest admits atMiddle

end Expressions

section Markup

open Outcome

variable
  {level : Nat}
  {c start behind middle d : Cursor}
  {inner : Expression}

/-- The expression of a hole, and then its closing brace. -/
theorem yields_readHoleExpression
    {remembers : Bool}
    {limit : Cursor}
    {modes : ModeStack}
    {owner : HoleOwner}
    {depth : Nat}
    {ahead : limit < c}
    (inside : modes.mode = owner.frame depth)
    (enough : level ≤ modes.levels)
    (reads : (Phrase.expression 0 inner).IsRead level c middle)
    (closed : middle.skipBlanks.eat? '\x7d' = some d) :
    (readHoleExpression (hostBehind remembers limit)
      (modes.push (.expressionHole depth owner)) c ahead).Yields inner modes d := by
  have read := reads _ (.fresh remembers c) (ModeStack.admits_push_hole inside enough) rfl
  have delegated : (hostBehind remembers limit (modes.push (.expressionHole depth owner)) c
      ahead).Yields inner (modes.push (.expressionHole depth owner)) middle :=
    yields_weaken.mpr (StreamOutcome.yields_toOutcome_iff_reaches.mpr read)
  refine Yields.andThen delegated fun _ => ?_
  rw [yields_weaken, yields_leaveHole]
  exact ⟨closed, rfl, _, ModeStack.closeHole_push inside⟩

theorem isRead_emptyHole
    (closed : c.skipBlanks.eat? '\x7d' = some d) :
    (Phrase.hole none).IsRead level c d := by
  intro remembers limit modes owner depth ahead inside enough
  rw [readHole, yields_afterStep]
  refine ⟨(), _, ModeStack.openHole_eq_ok.mpr ⟨owner, depth, inside, rfl⟩, ?_⟩
  dsimp only
  rw [if_pos (Cursor.eat?_eq_some_iff.mp closed).1, yields_weaken, yields_leaveHole,
    Cursor.skipBlanks_skipBlanks]
  exact ⟨closed, rfl, _, ModeStack.closeHole_push inside⟩

theorem isRead_filledHole
    (filled : c.skipBlanks.peek? ≠ some '\x7d')
    (reads : (Phrase.expression 0 inner).IsRead level c.skipBlanks middle)
    (closed : middle.skipBlanks.eat? '\x7d' = some d) :
    (Phrase.hole (some inner)).IsRead level c d := by
  intro remembers limit modes owner depth ahead inside enough
  rw [readHole, yields_afterStep]
  refine ⟨(), _, ModeStack.openHole_eq_ok.mpr ⟨owner, depth, inside, rfl⟩, ?_⟩
  dsimp only
  rw [if_neg filled, yields_weaken]
  exact yields_map.mpr ⟨inner, yields_readHoleExpression inside enough reads closed, rfl⟩

theorem isRead_spread
    (dots : c.skipBlanks.eatText? "..." = some behind)
    (reads : (Phrase.expression 0 inner).IsRead level behind.skipBlanks middle)
    (closed : middle.skipBlanks.eat? '\x7d' = some d) :
    (Phrase.spread inner).IsRead level c d := by
  intro remembers limit modes owner depth ahead inside enough
  rw [readSpread, yields_afterStep]
  refine ⟨(), _, ModeStack.openHole_eq_ok.mpr ⟨owner, depth, inside, rfl⟩, ?_⟩
  split
  · rename_i none
    rw [dots] at none
    cases none
  · rename_i behind' dots'
    rw [dots] at dots'
    cases dots'
    rw [yields_weaken]
    exact yields_readHoleExpression inside enough reads closed

theorem readQuotedValue_eq_ok
    {quote : Char}
    (closed : (c.advance.skipWhile (· != quote)).eat? quote = some d) :
    ∃ reached, (readQuotedValue c quote : Except Fault (Read (c ≤ ·) Expression)) =
      .ok ⟨⟨.string (String.ofList (c.advance.textWhile (· != quote))), c.spanTo d⟩, d,
        reached⟩ := by
  unfold readQuotedValue
  dsimp only
  split
  · rename_i none
    rw [Cursor.skipWhile] at closed
    rw [closed] at none
    cases none
  · rename_i stop found
    rw [Cursor.skipWhile] at closed
    rw [closed] at found
    cases found
    have reached : c ≤ d :=
      Cursor.le_trans c.le_advance
        (Cursor.le_trans (Cursor.le_advanceBy _ _) (Cursor.le_of_lt (Cursor.lt_of_eat? closed)))
    exact ⟨reached, rfl⟩

theorem isRead_quotedValue
    {quote : Char}
    (quotes : quote = '"' ∨ quote = '\'')
    (opened : c.peek? = some quote)
    (closed : (c.advance.skipWhile (· != quote)).eat? quote = some d) :
    (Phrase.attributeValue
      ⟨.string (String.ofList (c.advance.textWhile (· != quote))), c.spanTo d⟩).IsRead
      level c d := by
  intro remembers limit modes depth ahead name inside enough
  obtain ⟨reached, found⟩ := readQuotedValue_eq_ok closed
  unfold readAttributeValue
  rcases quotes with rfl | rfl <;>
    simp only [opened, yields_afterRead, found] <;>
    exact ⟨_, rfl, yields_success.mpr ⟨rfl, rfl, rfl⟩⟩

theorem isRead_holeValue
    {part : Option Expression}
    (opened : c.peek? = some '\x7b')
    (reads : (Phrase.hole part).IsRead level c.advance d) :
    (Phrase.attributeValue (part.getD (HostConstants.nullAt (c.spanTo d)))).IsRead level c d := by
  intro remembers limit modes depth ahead name inside enough
  unfold readAttributeValue
  simp only [opened]
  refine (reads remembers limit modes .tagHeader depth _ inside enough).andThen fun _ => ?_
  exact yields_success.mpr ⟨rfl, rfl, rfl⟩

/-- A name that is not empty starts with a character that may stand in a name. -/
theorem exists_peek?_of_textWhile
    {name : List Char}
    (spelled : c.textWhile (!isNameDelimiter ·) = name)
    (nonempty : name ≠ []) :
    ∃ first, c.peek? = some first ∧ isNameDelimiter first = false := by
  subst spelled
  unfold Cursor.textWhile at nonempty
  unfold Cursor.peek?
  cases rest : c.rest with
  | nil => simp [rest] at nonempty
  | cons first more =>
      refine ⟨first, rfl, ?_⟩
      cases delimits : isNameDelimiter first with
      | false => rfl
      | true => simp [rest, delimits] at nonempty

theorem isRead_bareAttribute
    {name : List Char}
    (spelled : c.textWhile (!isNameDelimiter ·) = name)
    (nonempty : name ≠ [])
    (valid : attributeNameFault? name = none)
    (named : d = c.advanceBy name.length)
    (bare : d.skipBlanks.eat? '=' = none) :
    (Phrase.attribute ⟨String.ofList name, HostConstants.trueAt (c.spanTo d), c.spanTo d⟩).IsRead
      level c d := by
  refine ⟨exists_peek?_of_textWhile spelled nonempty, ?_⟩
  intro remembers limit modes depth ahead tag inside enough
  subst named
  unfold readAttribute
  split
  · rename_i empty
    exact absurd (spelled.symm.trans empty) nonempty
  · rename_i first more spelled'
    obtain rfl := spelled.symm.trans spelled'
    split
    · rename_i fault invalid
      rw [valid] at invalid
      cases invalid
    · dsimp only
      split
      · exact yields_success.mpr ⟨rfl, rfl, rfl⟩
      · rename_i behind equals
        rw [List.length_cons] at bare
        rw [bare] at equals
        cases equals

theorem isRead_valuedAttribute
    {name : List Char}
    (spelled : c.textWhile (!isNameDelimiter ·) = name)
    (nonempty : name ≠ [])
    (valid : attributeNameFault? name = none)
    (equals : (c.advanceBy name.length).skipBlanks.eat? '=' = some behind)
    (value : (Phrase.attributeValue inner).IsRead level behind.skipBlanks d) :
    (Phrase.attribute ⟨String.ofList name, inner, c.spanTo d⟩).IsRead level c d := by
  refine ⟨exists_peek?_of_textWhile spelled nonempty, ?_⟩
  intro remembers limit modes depth ahead tag inside enough
  unfold readAttribute
  split
  · rename_i empty
    exact absurd (spelled.symm.trans empty) nonempty
  · rename_i first more spelled'
    obtain rfl := spelled.symm.trans spelled'
    rw [List.length_cons] at equals
    split
    · rename_i fault invalid
      rw [valid] at invalid
      cases invalid
    · dsimp only
      split
      · rename_i none
        rw [equals] at none
        cases none
      · rename_i behind' equals'
        rw [equals] at equals'
        cases equals'
        refine (value remembers limit modes depth _ _ inside enough).andThen fun _ => ?_
        exact yields_success.mpr ⟨rfl, rfl, rfl⟩

theorem isRead_headerEnd
    (closed : c.skipBlanks.eat? '>' = some d) :
    (Phrase.headerTail ([], .content)).IsRead level c d := by
  intro remembers limit modes depth ahead tag opened inside enough
  obtain ⟨next, rfl⟩ := Cursor.eat?_eq_some_iff.mp closed
  rw [readHeaderTail]
  split <;> rename_i found <;> rw [next] at found <;> cases found
  · exact yields_success.mpr ⟨rfl, rfl, rfl⟩
  · contradiction

theorem isRead_selfClosingEnd
    (closed : c.skipBlanks.eatText? "/>" = some d) :
    (Phrase.headerTail ([], .selfClosing)).IsRead level c d := by
  intro remembers limit modes depth ahead tag opened inside enough
  obtain ⟨⟨more, slash⟩, -⟩ := Cursor.eatText?_eq_some_iff.mp closed
  have next : c.skipBlanks.peek? = some '/' := by
    rw [Cursor.peek?, ← slash]
    rfl
  rw [readHeaderTail]
  split <;> rename_i found <;> rw [next] at found <;> cases found
  · split
    · rename_i stop closed'
      rw [closed] at closed'
      cases closed'
      exact yields_success.mpr ⟨rfl, rfl, rfl⟩
    · rename_i none
      rw [closed] at none
      cases none
  · contradiction

theorem isRead_spreadItem
    {tail : HeaderTail Expression}
    (opened : c.skipBlanks.eat? '\x7b' = some behind)
    (spread : (Phrase.spread inner).IsRead level behind middle)
    (rest : (Phrase.headerTail tail).IsRead level middle d) :
    (Phrase.headerTail (.cons (.spread ⟨inner, c.skipBlanks.spanTo middle⟩) tail)).IsRead
      level c d := by
  intro remembers limit modes depth ahead tag first inside enough
  obtain ⟨next, rfl⟩ := Cursor.eat?_eq_some_iff.mp opened
  rw [readHeaderTail]
  split <;> rename_i found <;> rw [next] at found <;> cases found
  · refine (spread remembers limit modes .tagHeader depth _ inside enough).andThen fun _ => ?_
    rw [yields_weaken]
    exact yields_map.mpr ⟨tail, rest remembers limit modes depth _ _ _ inside enough, rfl⟩
  · contradiction

theorem isRead_attributeItem
    {item : Attribute Expression}
    {tail : HeaderTail Expression}
    (named : (Phrase.attribute item).IsRead level c.skipBlanks middle)
    (rest : (Phrase.headerTail tail).IsRead level middle d) :
    (Phrase.headerTail (.cons (.named item) tail)).IsRead level c d := by
  intro remembers limit modes depth ahead tag opened inside enough
  obtain ⟨⟨first, next, letter⟩, reads⟩ := named
  rw [readHeaderTail]
  split <;> rename_i found <;> rw [next] at found <;> cases found
  · cases letter
  · cases letter
  · cases letter
  · refine (reads remembers limit modes depth _ _ inside enough).andThen fun _ => ?_
    rw [yields_weaken]
    exact yields_map.mpr ⟨tail, rest remembers limit modes depth _ _ _ inside enough, rfl⟩

theorem isRead_fragmentHeader
    (closed : c.skipBlanks.eat? '>' = some d) :
    (Phrase.header ⟨"", [], .content⟩).IsRead level c d := by
  intro remembers limit modes depth ahead opened inside enough
  unfold readHeader
  dsimp only
  split
  · rename_i stop fragment
    rw [closed] at fragment
    cases fragment
    exact yields_success.mpr ⟨rfl, rfl, rfl⟩
  · rename_i none
    rw [closed] at none
    cases none

/-- A tag name starts with a letter and not with the end of a tag. -/
theorem eat?_eq_none_of_readTagName
    {name : String}
    {reached : c ≤ d}
    (named : readTagName c = .ok ⟨name, d, reached⟩) :
    c.eat? '>' = none := by
  rw [Cursor.eat?_eq_none_iff]
  intro next
  obtain ⟨more, rest⟩ := Cursor.peek?_eq_some_iff.mp next
  simp [readTagName, rest, startsIdentifier, isIdentifierStart] at named

theorem isRead_namedHeader
    {name : String}
    {tail : HeaderTail Expression}
    {named : Cursor}
    {reached : c.skipBlanks ≤ named}
    (tag : readTagName c.skipBlanks = .ok ⟨name, named, reached⟩)
    (rest : (Phrase.headerTail tail).IsRead level named d) :
    (Phrase.header ⟨name, tail.1, tail.2⟩).IsRead level c d := by
  intro remembers limit modes depth ahead opened inside enough
  unfold readHeader
  dsimp only
  split
  · rename_i stop fragment
    rw [eat?_eq_none_of_readTagName tag] at fragment
    cases fragment
  · rw [yields_afterRead]
    refine ⟨_, tag, ?_⟩
    rw [yields_weaken]
    exact yields_map.mpr ⟨tail, rest remembers limit modes depth _ _ _ inside enough, rfl⟩

theorem isRead_comment
    {comment : Comment}
    {reached : c < d}
    (found : readComment? c = .ok (some ⟨comment, d, reached⟩)) :
    (Phrase.braces (.comment comment)).IsRead level c d := by
  intro remembers limit modes depth ahead inside enough
  unfold readBraces
  simp only [found]
  exact yields_success.mpr ⟨rfl, rfl, rfl⟩

theorem isRead_hole
    {part : Option Expression}
    (found : readComment? c = .ok none)
    (unspread : startsSpread c.advance.rest = false)
    (hole : (Phrase.hole part).IsRead level c.advance d) :
    (Phrase.braces
      (.hole ⟨part.getD (HostConstants.nullAt (c.spanTo d)), c.spanTo d⟩)).IsRead level c d := by
  intro remembers limit modes depth ahead inside enough
  unfold readBraces
  simp only [found]
  rw [if_neg (Bool.eq_false_iff.mp unspread)]
  refine (hole remembers limit modes .tagContent depth _ inside enough).andThen fun _ => ?_
  exact yields_success.mpr ⟨rfl, rfl, rfl⟩

theorem isRead_closeContent
    {length : Nat}
    {name : String}
    {left : Boundary}
    {reached : c.advanceBy length < d}
    (mark : ContentMark.next c.rest = (length, .closingTag))
    (closed : readClosingTag (c.advanceBy length) name = .ok ⟨name, d, reached⟩) :
    (Phrase.content name left (literalText c length left .tag)).IsRead level c d := by
  intro remembers limit modes depth ahead opened inside enough
  obtain rfl : (ContentMark.next c.rest).1 = length := by rw [mark]
  have marked := congrArg Prod.snd mark
  rw [readContentBehind]
  simp only [marked]
  rw [yields_afterRead]
  exact ⟨_, closed, yields_success.mpr ⟨rfl, rfl, rfl⟩⟩

/-- Content of a tag leaves room for tags. -/
theorem ModeStack.admits_of_tagContent
    {modes : ModeStack}
    {depth : Nat}
    (inside : modes.mode = .tagContent depth)
    (enough : level ≤ modes.levels) :
    modes.Admits level where
  proper := @ModeStack.frames_ne_nil_of_mode _ .tagContent _ inside
  allowsTags := by
    intro depth' header
    rw [inside] at header
    cases header
  enough := enough

/-- Behind some literal text an element is read, or what stands in braces. -/
inductive IsReadChild (level : Nat) (c middle : Cursor) :
    Nat → Boundary → Child Expression → Prop
  | element {length : Nat} {element : Element Expression} :
      ContentMark.next c.rest = (length, .openingTag) →
      (Phrase.element element).IsRead level (c.advanceBy length) middle →
      IsReadChild level c middle length .tag (.element element)
  | braces {length : Nat} {child : Child Expression} :
      ContentMark.next c.rest = (length, .brace) →
      (Phrase.braces child).IsRead level (c.advanceBy length) middle →
      IsReadChild level c middle length .hole child

/-- Reading content goes on behind a child. -/
theorem IsReadChild.readContentBehind_eq
    {length depth : Nat}
    {boundary left : Boundary}
    {child : Child Expression}
    {remembers : Bool}
    {limit : Cursor}
    {modes : ModeStack}
    {ahead : limit < c}
    {name : String}
    {opened : Position}
    (isRead : IsReadChild level c middle length boundary child)
    (inside : modes.mode = .tagContent depth)
    (enough : level ≤ modes.levels) :
    ∃ passed : c < middle,
      readContentBehind (hostBehind remembers limit) modes c ahead name opened left =
        ((readContentBehind (hostBehind remembers limit) modes middle
            (Cursor.lt_trans ahead passed) name opened boundary).map
          (Content.prepend (literalText c length left boundary ++ [child]))).weaken
          fun _ => Cursor.lt_trans passed := by
  rw [readContentBehind]
  cases isRead with
  | element mark reads =>
      obtain rfl : (ContentMark.next c.rest).1 = length := by rw [mark]
      have marked := congrArg Prod.snd mark
      obtain ⟨reached, read⟩ :=
        reads remembers limit modes _ (ModeStack.admits_of_tagContent inside enough)
      simp only [marked]
      rw [read]
      exact ⟨Cursor.lt_of_le_of_lt (c.le_advanceBy _) reached, rfl⟩
  | braces mark reads =>
      obtain rfl : (ContentMark.next c.rest).1 = length := by rw [mark]
      have marked := congrArg Prod.snd mark
      obtain ⟨reached, read⟩ := reads remembers limit modes depth _ inside enough
      simp only [marked]
      rw [read]
      exact ⟨Cursor.lt_of_le_of_lt (c.le_advanceBy _) reached, rfl⟩

theorem isRead_child
    {length : Nat}
    {name : String}
    {boundary left : Boundary}
    {child : Child Expression}
    {children : List (Child Expression)}
    (isRead : IsReadChild level c middle length boundary child)
    (rest : (Phrase.content name boundary children).IsRead level middle d) :
    (Phrase.content name left
      (literalText c length left boundary ++ child :: children)).IsRead level c d := by
  intro remembers limit modes depth ahead opened inside enough
  obtain ⟨_, goesOn⟩ := isRead.readContentBehind_eq inside enough
  rw [goesOn, yields_weaken]
  refine yields_map.mpr
    ⟨(children, name), rest remembers limit modes depth _ _ inside enough, ?_⟩
  simp [Content.prepend]

/-- Opening a tag takes a level. -/
theorem ModeStack.Admits.openTag
    {modes : ModeStack}
    {position : Position}
    (admits : modes.Admits (level + 1)) :
    ModeStack.openTag position modes =
      .ok (modes.depth + 1) (modes.push (.tagHeader (modes.depth + 1))) :=
  ModeStack.openTag_eq_ok.mpr
    ⟨admits.allowsTags, Nat.lt_of_lt_of_le (Nat.succ_pos level) admits.enough, rfl, rfl⟩

/-- An open tag leaves one level fewer to its parts. -/
theorem ModeStack.Admits.enough_push
    {modes : ModeStack}
    (admits : modes.Admits (level + 1))
    (owner : HoleOwner) :
    level ≤ (modes.push (owner.frame (modes.depth + 1))).levels := by
  have enough := admits.enough
  rw [ModeStack.levels_push_frame]
  omega

theorem isRead_selfClosingElement
    {header : Header Expression}
    {entered : Cursor}
    (opened : c.eat? '<' = some entered)
    (reads : (Phrase.header header).IsRead level entered d)
    (ending : header.ending = .selfClosing) :
    (Phrase.element (.selfClosing header.name header.attributes (c.spanTo d))).IsRead
      (level + 1) c d := by
  intro remembers limit modes ahead admits
  rw [readElementBehind]
  split
  · rename_i none
    rw [opened] at none
    cases none
  · rename_i entered' opened'
    obtain rfl := Option.some.inj (opened'.symm.trans opened)
    rw [yields_afterStep]
    refine ⟨_, _, admits.openTag, ?_⟩
    have enough := admits.enough_push .tagHeader
    refine (reads remembers limit _ _ _ _ rfl enough).andThen fun _ => ?_
    simp only [ending]
    rw [yields_afterStep]
    exact ⟨_, modes, ModeStack.selfClose_push admits.proper, yields_success.mpr ⟨rfl, rfl, rfl⟩⟩

theorem isRead_closedElement
    {header : Header Expression}
    {children : List (Child Expression)}
    {entered : Cursor}
    (opened : c.eat? '<' = some entered)
    (reads : (Phrase.header header).IsRead level entered behind)
    (ending : header.ending = .content)
    (content : (Phrase.content header.name .tag children).IsRead level behind d) :
    (Phrase.element ⟨header.name, header.attributes, children, some header.name,
      c.spanTo d⟩).IsRead (level + 1) c d := by
  intro remembers limit modes ahead admits
  rw [readElementBehind]
  split
  · rename_i none
    rw [opened] at none
    cases none
  · rename_i entered' opened'
    obtain rfl := Option.some.inj (opened'.symm.trans opened)
    rw [yields_afterStep]
    refine ⟨_, _, admits.openTag, ?_⟩
    refine (reads remembers limit _ _ _ _ rfl (admits.enough_push .tagHeader)).andThen
      fun _ => ?_
    simp only [ending]
    rw [yields_afterStep]
    refine ⟨_, _, ModeStack.enterContent_push, ?_⟩
    refine (content remembers limit _ _ _ _ rfl (admits.enough_push .tagContent)).andThen
      fun _ => ?_
    rw [closeElement, yields_afterStep]
    refine ⟨_, modes, ModeStack.closeTag_push admits.proper, ?_⟩
    simp only [Element.closed, if_true]
    exact yields_success.mpr ⟨rfl, rfl, rfl⟩

end Markup

/-- What the rules derive is what the readers yield. -/
theorem Reads.isRead
    {level : Nat}
    {phrase : Phrase}
    {start stop : Cursor}
    (reads : Reads level phrase start stop) :
    phrase.IsRead level start stop := by
  induction reads with
  | expression skipped _ _ operand continuation =>
      exact isRead_expression skipped operand continuation
  | stop next weak => exact isRead_stop next weak
  | connect next connects strong _ _ connection continuation =>
      exact isRead_connect next connects strong connection continuation
  | binary _ operand => exact isRead_binary operand
  | assign assignable _ value => exact isRead_assign assignable value
  | ternary _ colon _ optional last => exact isRead_ternary optional colon last
  | absent next => exact isRead_absent next
  | present next other _ part => exact isRead_present next other part
  | markup skipped tag _ element => exact isRead_markup skipped tag element
  | not skipped plain next _ operand => exact isRead_signed .not skipped plain next operand
  | negate skipped plain next _ operand => exact isRead_signed .negate skipped plain next operand
  | unsigned skipped plain next noNot noMinus _ _ primary accesses =>
      exact isRead_unsigned skipped plain next noNot noMinus primary accesses
  | leaf skipped next leaf => exact isRead_leaf skipped next leaf
  | name skipped next alone => exact isRead_name skipped next alone
  | arrayCall skipped next array opened _ entries =>
      exact isRead_arrayCall skipped next array opened entries
  | array skipped opened _ entries => exact isRead_array skipped opened entries
  | function skipped next _ arrow => exact isRead_function skipped next arrow
  | parenthesized opened _ closed inner => exact isRead_parenthesized opened inner closed
  | noParameters closed => exact isRead_noParameters closed
  | lastParameter ahead other question identifier read comma closed =>
      exact isRead_lastParameter ahead other question identifier read comma closed
  | moreParameters ahead other question identifier read comma _ rest =>
      exact isRead_moreParameters ahead other question identifier read comma rest
  | arrowFunction paren _ doubleArrow _ parameters body =>
      exact isRead_arrowFunction paren parameters doubleArrow body
  | plainEntry skipped dots _ unarrowed value =>
      exact isRead_plainEntry skipped dots value unarrowed
  | keyedEntry skipped dots _ arrowed _ first second =>
      exact isRead_keyedEntry skipped dots first arrowed second
  | noEntries closed => exact isRead_noEntries closed
  | lastEntry ahead other _ comma closed entry =>
      exact isRead_lastEntry ahead other entry comma closed
  | moreEntries ahead other _ comma _ entry rest =>
      exact isRead_moreEntries ahead other entry comma rest
  | plainMember word next uncalled => exact isRead_plainMember word next uncalled
  | calledMember word opened _ entries => exact isRead_calledMember word opened entries
  | memberAccess arrow _ member => exact isRead_memberAccess arrow member
  | entryAccess opened _ closed optional => exact isRead_entryAccess opened optional closed
  | callAccess opened callable _ entries => exact isRead_callAccess opened callable entries
  | staticAccess colons isName _ member => exact isRead_staticAccess colons isName member
  | noAccess next unaccessed => exact isRead_noAccess next unaccessed
  | moreAccesses _ _ access accesses => exact isRead_moreAccesses access accesses
  | emptyHole closed => exact isRead_emptyHole closed
  | filledHole filled _ closed inner => exact isRead_filledHole filled inner closed
  | spread dots _ closed inner => exact isRead_spread dots inner closed
  | quotedValue quotes opened closed => exact isRead_quotedValue quotes opened closed
  | holeValue opened _ hole => exact isRead_holeValue opened hole
  | bareAttribute spelled nonempty valid named bare =>
      exact isRead_bareAttribute spelled nonempty valid named bare
  | valuedAttribute spelled nonempty valid equals _ value =>
      exact isRead_valuedAttribute spelled nonempty valid equals value
  | headerEnd closed => exact isRead_headerEnd closed
  | selfClosingEnd closed => exact isRead_selfClosingEnd closed
  | spreadItem opened _ _ spread rest => exact isRead_spreadItem opened spread rest
  | attributeItem _ _ item rest => exact isRead_attributeItem item rest
  | fragmentHeader closed => exact isRead_fragmentHeader closed
  | namedHeader tag _ rest => exact isRead_namedHeader tag rest
  | selfClosingElement opened _ ending header =>
      exact isRead_selfClosingElement opened header ending
  | closedElement opened _ ending _ header content =>
      exact isRead_closedElement opened header ending content
  | comment found => exact isRead_comment found
  | hole found unspread _ hole => exact isRead_hole found unspread hole
  | closeContent mark closed => exact isRead_closeContent mark closed
  | elementChild mark _ _ element rest => exact isRead_child (.element mark element) rest
  | bracesChild mark _ _ braces rest => exact isRead_child (.braces mark braces) rest

/-- Modes in which nothing is open admit as many levels as their budget. -/
theorem ModeStack.admits_initial (budget : Nat) : (ModeStack.initial budget).Admits budget where
  proper := List.cons_ne_nil _ _
  allowsTags := by
    intro depth header
    cases header
  enough := Nat.le_of_eq rfl

/-- An element that the rules derive is read, with host expressions in its holes. -/
theorem Reads.yields_readElement
    {level : Nat}
    {modes : ModeStack}
    {start stop : Cursor}
    {element : Element Expression}
    (reads : Reads level (.element element) start stop)
    (admits : modes.Admits level) :
    (readElement hostDelegate modes start).Yields element modes stop :=
  reads.isRead true start modes start.le_refl admits

/-- An expression that the rules derive is read by the host language of this library. -/
theorem Reads.yields_hostDelegate
    {level : Nat}
    {modes : ModeStack}
    {start stop : Cursor}
    {whole : Expression}
    (reads : Reads level (.expression 0 whole) start stop)
    (admits : modes.Admits level) :
    (hostDelegate modes start).Yields whole modes stop :=
  Outcome.yields_weaken.mpr
    (StreamOutcome.yields_toOutcome_iff_reaches.mpr
      (reads.isRead modes (.fresh true start) admits rfl))

/-- One expression only is read from a cursor on. -/
theorem Reads.expression_unique
    {level more power : Nat}
    {whole other : Expression}
    {start stop behind : Cursor}
    (reads : Reads level (.expression power whole) start stop)
    (reads' : Reads more (.expression power other) start behind) :
    whole = other ∧ stop = behind := by
  have admits := ModeStack.admits_initial (max level more)
  obtain ⟨stream, ⟨reached, found⟩, rfl⟩ := reads.isRead _ (.fresh true start)
    (admits.mono (Nat.le_max_left _ _)) rfl
  obtain ⟨stream', ⟨reached', found'⟩, rfl⟩ := reads'.isRead _ (.fresh true start)
    (admits.mono (Nat.le_max_right _ _)) rfl
  rw [found] at found'
  cases found'
  exact ⟨rfl, rfl⟩

/-- An expression that the rules derive up to the end of a text is what the text consists of. -/
theorem Reads.ofText_eq_ok
    {level budget : Nat}
    {text : String}
    {stop behind : Cursor}
    {whole : Expression}
    (reads : Reads level (.expression 0 whole) (.ofText text) stop)
    (ended : NextLexeme stop .endOfInput behind)
    (fits : level ≤ budget) :
    Expression.ofText text budget = .ok whole := by
  have admits := (ModeStack.admits_initial budget).mono fits
  obtain ⟨stream, ⟨reached, found⟩, rfl⟩ := reads.isRead _ (.fresh true (.ofText text)) admits rfl
  obtain ⟨view, looked, ending, -⟩ := look_of_nextLexeme ended
  unfold Expression.ofText
  rw [found]
  simp only [looked, ending, if_true]

end EmbeddedMarkup
