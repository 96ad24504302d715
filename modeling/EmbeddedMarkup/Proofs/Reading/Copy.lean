import EmbeddedMarkup.Proofs.Reading.Holes
import EmbeddedMarkup.Proofs.Tree.Respan

/-!
# Copies of host code
-/

namespace EmbeddedMarkup

open Cursor

variable {start stop start' c d first behind : Cursor} {lexeme : Lexeme} {span : Span}

/-! ## Copies of phrases -/

/-- What is read at a copy where the phrase is read at the cursor that is copied. -/
def Phrase.copy (start start' : Cursor) : Phrase → Phrase
  | .expression power whole => .expression power (whole.respan (start.respan start'))
  | .continuation first power left whole =>
      .continuation (start.copy start' first) power (left.respan (start.respan start'))
        (whole.respan (start.respan start'))
  | .connection binding left form =>
      .connection binding (left.respan (start.respan start')) (form.respan (start.respan start'))
  | .optional kind part => .optional kind (part.map (Expression.respan (start.respan start')))
  | .operand whole => .operand (whole.respan (start.respan start'))
  | .primary whole => .primary (whole.respan (start.respan start'))
  | .parameters list => .parameters (list.map (·.respan (start.respan start')))
  | .arrowFunction form => .arrowFunction (form.respan (start.respan start'))
  | .entry keyed item => .entry keyed (item.respan (start.respan start'))
  | .entries close keyed items =>
      .entries close keyed (items.map (·.respan (start.respan start')))
  | .member name arguments =>
      .member name (arguments.map (·.map (·.respan (start.respan start'))))
  | .access base form =>
      .access (base.respan (start.respan start')) (form.respan (start.respan start'))
  | .accesses first base whole =>
      .accesses (start.copy start' first) (base.respan (start.respan start'))
        (whole.respan (start.respan start'))
  | .element tree => .element (tree.respan (start.respan start'))
  | .header whole =>
      .header ⟨whole.name, whole.attributes.map (·.respan (start.respan start')), whole.ending⟩
  | .headerTail tail => .headerTail (tail.1.map (·.respan (start.respan start')), tail.2)
  | .attribute item =>
      .attribute
        ⟨item.name, item.value.respan (start.respan start'), start.respan start' item.span⟩
  | .attributeValue value => .attributeValue (value.respan (start.respan start'))
  | .hole part => .hole (part.map (Expression.respan (start.respan start')))
  | .spread whole => .spread (whole.respan (start.respan start'))
  | .braces child => .braces (child.respan (start.respan start'))
  | .content name left children =>
      .content name left (children.map (·.respan (start.respan start')))

/--
The phrase ends inside the text: host code in front of another token or where the copy ends, an
attribute in front of something else in its header, and other markup at the end of the text at the
latest.  What a phrase goes on from starts inside the text too.
-/
def Phrase.Within (start stop start' : Cursor) : Phrase → Cursor → Cursor → Prop
  | .continuation first .., c, d | .accesses first .., c, d =>
      start ≤ first ∧ first ≤ c ∧ FollowedIn start stop start' d
  | .optional .., _, d => TokenIn start stop start' d
  | .attribute _, _, d => d.skipBlanks < stop
  | .element _, _, d | .header _, _, d | .headerTail _, _, d | .attributeValue _, _, d
  | .hole _, _, d | .spread _, _, d | .braces _, _, d | .content .., _, d => d ≤ stop
  | _, _, d => FollowedIn start stop start' d

/-- A phrase inside the text is read at the copy as well. -/
def Phrase.Copies
    (start stop start' : Cursor)
    (level : Nat)
    (phrase : Phrase)
    (c d : Cursor) : Prop :=
  start ≤ c → phrase.Within start stop start' c d →
    Reads level (phrase.copy start start') (start.copy start' c) (start.copy start' d)

theorem Lexeme.respan_leaf
    {form : ExpressionForm Expression}
    (leaf : lexeme.leaf? = some form)
    (f : Span → Span) :
    form.respan f = form := by
  cases lexeme <;> cases leaf <;> rfl

theorem Lexeme.accesses_respan (lexeme : Lexeme) (base : Expression) (f : Span → Span) :
    lexeme.accesses (base.respan f) = lexeme.accesses base := by
  unfold Lexeme.accesses
  rw [Expression.isCallable_respan, Expression.isName_respan]

theorem map_toArgument_respan (items : List (ArrayItem Expression)) (f : Span → Span) :
    (items.map ArrayItem.toArgument).map (·.respan f) =
      (items.map (·.respan f)).map ArrayItem.toArgument := by
  rw [List.map_map, List.map_map]
  rfl

section HostCode

variable
  {level power : Nat}
  {middle named : Cursor}
  {left whole inner base : Expression}
  {form : ExpressionForm Expression}
  {item : ArrayItem Expression}
  {items : List (ArrayItem Expression)}
  {keyed : Bool}
  {close kind : Symbol}
  {text : String}

/-- An assignment goes on with its value. -/
theorem copies_assign
    {leftPower rightPower : Nat}
    (assignable : left.isAssignable = true)
    (value' : (Phrase.expression rightPower inner).Copies start stop start' level c d) :
    (Phrase.connection ⟨.assign, leftPower, rightPower⟩ left (.assign left inner)).Copies
      start stop start' level c d := by
  intro inside followed
  refine .assign ?_ (value' inside followed)
  rw [Expression.isAssignable_respan]
  exact assignable

variable (copied : Copied start stop start')

include copied

/-- An expression that stands in the text is copied with its span. -/
theorem respan_spanTo
    (inside : start ≤ c)
    (order : c ≤ d)
    (within : d ≤ stop)
    (form : ExpressionForm Expression) :
    Expression.respan (start.respan start') ⟨form, c.spanTo d⟩ =
      ⟨form.respan (start.respan start'), (start.copy start' c).spanTo (start.copy start' d)⟩ := by
  rw [Expression.respan_mk, copied.spanTo inside order within]

theorem copies_expression
    (skipped : skipTrivia c = ⟨.ok (), first⟩)
    (operand : Reads level (.operand left) c behind)
    (continuation : Reads level (.continuation first power left whole) behind d)
    (operand' : (Phrase.operand left).Copies start stop start' level c behind)
    (continuation' : (Phrase.continuation first power left whole).Copies start stop start' level
      behind d) :
    (Phrase.expression power whole).Copies start stop start' (level + 1) c d := by
  intro inside followed
  have between := followed.of_reads continuation rfl
  have here := between.of_starts operand.starts_operand
  have order := operand.starts_operand.le_of_skipTrivia skipped
  have inside' := Cursor.le_trans inside (le_of_skipTrivia skipped)
  exact .expression (here.skipTrivia copied inside skipped) (operand' inside between)
    (continuation' (Cursor.le_trans inside operand.le) ⟨inside', order, followed⟩)

theorem copies_stop
    (next : NextLexeme c lexeme behind)
    (weak : ∀ binding, lexeme.binding? = some binding → binding.left < power) :
    (Phrase.continuation first power left left).Copies start stop start' level c c := by
  rintro inside ⟨-, -, followed⟩
  obtain ⟨_, _, next', rfl | rfl | rfl⟩ := followed.exists_nextLexeme copied inside next
  · exact .stop next' weak
  · exact .stop next' (by simp [Lexeme.binding?])
  · exact .stop next' (by simp [Lexeme.binding?, Symbol.binding?])

theorem copies_connect
    {binding : Binding}
    (next : NextLexeme c lexeme behind)
    (connects : lexeme.binding? = some binding)
    (strong : power ≤ binding.left)
    (connection : Reads level (.connection binding left form) behind middle)
    (continuation : Reads level
      (.continuation first power ⟨form, first.spanTo middle⟩ whole) middle d)
    (connection' : (Phrase.connection binding left form).Copies start stop start' level behind
      middle)
    (continuation' : (Phrase.continuation first power ⟨form, first.spanTo middle⟩ whole).Copies
      start stop start' level middle d) :
    (Phrase.continuation first power left whole).Copies start stop start' level c d := by
  rintro inside ⟨inside', order, followed⟩
  have between := followed.of_reads continuation rfl
  have more := Lexeme.ne_endOfInput_of_binding? connects
  have here := (between.of_reads connection rfl).of_next next more
  have onward := Cursor.le_trans next.le connection.le
  have order' := Cursor.le_trans order onward
  have rest := continuation' (Cursor.le_trans inside onward) ⟨inside', order', followed⟩
  rw [Phrase.copy, respan_spanTo copied inside' order' between.le_stop] at rest
  exact .connect (here.nextLexeme copied inside next) connects strong
    (connection' (Cursor.le_trans inside next.le) between) rest

theorem copies_ternary
    {leftPower rightPower : Nat}
    {ifTrue : Option Expression}
    {ifFalse : Expression}
    (optional : Reads level (.optional .colon ifTrue) c middle)
    (colon : NextLexeme middle (.symbol .colon) behind)
    (last : Reads level (.expression rightPower ifFalse) behind d)
    (optional' : (Phrase.optional .colon ifTrue).Copies start stop start' level c middle)
    (last' : (Phrase.expression rightPower ifFalse).Copies start stop start' level behind d) :
    (Phrase.connection ⟨.ternary, leftPower, rightPower⟩ left
      (.ternary left ifTrue ifFalse)).Copies start stop start' level c d := by
  intro inside followed
  have between := (followed.of_reads last rfl).of_next colon (by simp)
  have inside' := Cursor.le_trans inside optional.le
  exact .ternary (optional' inside between) (between.nextLexeme copied inside' colon)
    (last' (Cursor.le_trans inside' colon.le) followed)

theorem copies_absent
    (next : NextLexeme c (.symbol kind) behind) :
    (Phrase.optional kind none).Copies start stop start' level c c := by
  intro inside tokenIn
  exact .absent (tokenIn.nextLexeme copied inside next)

theorem copies_present
    (next : NextLexeme c lexeme behind)
    (other : lexeme ≠ .symbol kind)
    (part : Reads level (.expression 0 inner) c d)
    (part' : (Phrase.expression 0 inner).Copies start stop start' level c d) :
    (Phrase.optional kind (some inner)).Copies start stop start' level c d := by
  intro inside tokenIn
  have here := tokenIn.followed.of_starts part.starts_expression
  exact .present (here.nextLexeme copied inside next) other (part' inside tokenIn.followed)

theorem copies_markup
    {element : Element Expression}
    (skipped : skipTrivia c = ⟨.ok (), first⟩)
    (tag : startsMarkup first.rest = true)
    (reads : Reads level (.element element) first d)
    (reads' : (Phrase.element element).Copies start stop start' level first d) :
    (Phrase.operand ⟨.markup element, first.spanTo d⟩).Copies start stop start' level c d := by
  intro inside followed
  have inside' := Cursor.le_trans inside (le_of_skipTrivia skipped)
  have here := followed.of_starts (Reads.markup skipped tag reads).starts_operand
  have copy := reads' inside' followed.le_stop
  rw [Phrase.copy, respan_spanTo copied inside' reads.le followed.le_stop]
  exact .markup (here.skipTrivia copied inside skipped) (startsMarkup_of_element ⟨level, copy⟩) copy

/-- Trivia in front of host code are copied, and so is the span from behind them. -/
theorem copy_spanned
    (inside : start ≤ c)
    (here : TokenIn start stop start' c)
    (skipped : skipTrivia c = ⟨.ok (), first⟩)
    (starts : StartsBefore c d)
    (within : d ≤ stop) :
    skipTrivia (start.copy start' c) = ⟨.ok (), start.copy start' first⟩ ∧
      start.respan start' (first.spanTo d) =
        (start.copy start' first).spanTo (start.copy start' d) :=
  ⟨here.skipTrivia copied inside skipped,
    copied.spanTo (Cursor.le_trans inside (le_of_skipTrivia skipped))
      (starts.le_of_skipTrivia skipped) within⟩

theorem copies_signed
    {kind : Symbol}
    {form : Expression → ExpressionForm Expression}
    (sign : IsSign kind form)
    (skipped : skipTrivia c = ⟨.ok (), first⟩)
    (plain : startsMarkup first.rest = false)
    (next : NextLexeme c (.symbol kind) behind)
    (operand : Reads level (.expression signPower inner) behind d)
    (operand' : (Phrase.expression signPower inner).Copies start stop start' level behind d) :
    (Phrase.operand ⟨form inner, first.spanTo d⟩).Copies start stop start' level c d := by
  intro inside followed
  have here := (followed.of_reads operand rfl).of_next next (by simp)
  obtain ⟨skips, span⟩ :=
    copy_spanned copied inside here skipped (next.startsBefore (by simp) operand.le)
      followed.le_stop
  have respanned : (form inner).respan (start.respan start') =
      form (inner.respan (start.respan start')) := by
    cases sign <;> rfl
  rw [Phrase.copy, Expression.respan_mk, span, respanned]
  exact .signed sign skips (here.startsMarkup_eq_false copied inside skipped plain)
    (here.nextLexeme copied inside next) (operand' (Cursor.le_trans inside next.le) followed)

theorem copies_unsigned
    (skipped : skipTrivia c = ⟨.ok (), first⟩)
    (plain : startsMarkup first.rest = false)
    (next : NextLexeme c lexeme middle)
    (not_not : lexeme ≠ .symbol .not)
    (not_minus : lexeme ≠ .symbol .minus)
    (primary : Reads level (.primary base) c behind)
    (accesses : Reads level (.accesses first base whole) behind d)
    (primary' : (Phrase.primary base).Copies start stop start' level c behind)
    (accesses' : (Phrase.accesses first base whole).Copies start stop start' level behind d) :
    (Phrase.operand whole).Copies start stop start' level c d := by
  intro inside followed
  have between := followed.of_reads accesses rfl
  have here := between.of_starts primary.starts_primary
  have inside' := Cursor.le_trans inside (le_of_skipTrivia skipped)
  have order := primary.starts_primary.le_of_skipTrivia skipped
  exact .unsigned (here.skipTrivia copied inside skipped)
    (here.startsMarkup_eq_false copied inside skipped plain) (here.nextLexeme copied inside next)
    not_not not_minus (primary' inside between)
    (accesses' (Cursor.le_trans inside primary.le) ⟨inside', order, followed⟩)

/-! ### Primaries -/

theorem copies_leaf
    (skipped : skipTrivia c = ⟨.ok (), first⟩)
    (next : NextLexeme c lexeme d)
    (leaf : lexeme.leaf? = some form) :
    (Phrase.primary ⟨form, first.spanTo d⟩).Copies start stop start' level c d := by
  intro inside followed
  have primary : Reads level (.primary _) c d := .leaf skipped next leaf
  have starts := primary.starts_primary
  have here := followed.of_starts starts
  obtain ⟨skips, span⟩ := copy_spanned copied inside here skipped starts followed.le_stop
  rw [Phrase.copy, Expression.respan_mk, span, Lexeme.respan_leaf leaf]
  exact .leaf skips (here.nextLexeme copied inside next) leaf

theorem copies_name
    (skipped : skipTrivia c = ⟨.ok (), first⟩)
    (next : NextLexeme c (.word .identifier text) d)
    (alone : sameWord text "array" = true →
      ∃ lexeme behind, NextLexeme d lexeme behind ∧ lexeme ≠ .symbol .leftParen) :
    (Phrase.primary ⟨.bareName text, first.spanTo d⟩).Copies start stop start' level c d := by
  intro inside followed
  have here := followed.of_next next (by simp)
  obtain ⟨skips, span⟩ :=
    copy_spanned copied inside here skipped (next.startsBefore (by simp) d.le_refl) followed.le_stop
  rw [Phrase.copy, Expression.respan_mk, span]
  refine .name skips (here.nextLexeme copied inside next) fun array => ?_
  obtain ⟨following, behind, follows, other⟩ := alone array
  obtain ⟨_, _, follows', rfl | rfl | rfl⟩ :=
    followed.exists_nextLexeme copied (Cursor.le_trans inside next.le) follows
  · exact ⟨_, _, follows', other⟩
  · exact ⟨_, _, follows', by simp⟩
  · exact ⟨_, _, follows', by simp⟩

theorem copies_arrayCall
    (skipped : skipTrivia c = ⟨.ok (), first⟩)
    (next : NextLexeme c (.word .identifier text) named)
    (array : sameWord text "array" = true)
    (opened : NextLexeme named (.symbol .leftParen) behind)
    (entries : Reads level (.entries .rightParen true items) behind d)
    (entries' : (Phrase.entries .rightParen true items).Copies start stop start' level behind d) :
    (Phrase.primary ⟨.array items, first.spanTo d⟩).Copies start stop start' level c d := by
  intro inside followed
  have between := (followed.of_reads entries rfl).of_next opened (by simp)
  have here := between.of_next next (by simp)
  have inside' := Cursor.le_trans inside next.le
  obtain ⟨skips, span⟩ := copy_spanned copied inside here skipped
    (next.startsBefore (by simp) (Cursor.le_trans opened.le entries.le)) followed.le_stop
  rw [Phrase.copy, Expression.respan_mk, span, ExpressionForm.respan_array]
  exact .arrayCall skips (here.nextLexeme copied inside next) array
    (between.nextLexeme copied inside' opened)
    (entries' (Cursor.le_trans inside' opened.le) followed)

theorem copies_array
    (skipped : skipTrivia c = ⟨.ok (), first⟩)
    (next : NextLexeme c (.symbol .leftBracket) behind)
    (entries : Reads level (.entries .rightBracket true items) behind d)
    (entries' : (Phrase.entries .rightBracket true items).Copies start stop start' level behind
      d) :
    (Phrase.primary ⟨.array items, first.spanTo d⟩).Copies start stop start' level c d := by
  intro inside followed
  have here := (followed.of_reads entries rfl).of_next next (by simp)
  obtain ⟨skips, span⟩ :=
    copy_spanned copied inside here skipped (next.startsBefore (by simp) entries.le)
      followed.le_stop
  rw [Phrase.copy, Expression.respan_mk, span, ExpressionForm.respan_array]
  exact .array skips (here.nextLexeme copied inside next)
    (entries' (Cursor.le_trans inside next.le) followed)

theorem copies_function
    (skipped : skipTrivia c = ⟨.ok (), first⟩)
    (next : NextLexeme c (.word .fn text) behind)
    (function : Reads level (.arrowFunction form) behind d)
    (function' : (Phrase.arrowFunction form).Copies start stop start' level behind d) :
    (Phrase.primary ⟨form, first.spanTo d⟩).Copies start stop start' level c d := by
  intro inside followed
  have here := (followed.of_reads function rfl).of_next next (by simp)
  obtain ⟨skips, span⟩ := copy_spanned copied inside here skipped
    (next.startsBefore (by simp) function.le) followed.le_stop
  rw [Phrase.copy, Expression.respan_mk, span]
  exact .function skips (here.nextLexeme copied inside next)
    (function' (Cursor.le_trans inside next.le) followed)

theorem copies_parenthesized
    (next : NextLexeme c (.symbol .leftParen) behind)
    (reads : Reads level (.expression 0 inner) behind middle)
    (closed : NextLexeme middle (.symbol .rightParen) d)
    (reads' : (Phrase.expression 0 inner).Copies start stop start' level behind middle) :
    (Phrase.primary inner).Copies start stop start' level c d := by
  intro inside followed
  have between := followed.of_next closed (by simp)
  have here := (between.followed.of_reads reads rfl).of_next next (by simp)
  have inside' := Cursor.le_trans inside next.le
  exact .parenthesized (here.nextLexeme copied inside next) (reads' inside' between.followed)
    (between.nextLexeme copied (Cursor.le_trans inside' reads.le) closed)

/-! ### Arrow functions -/

theorem copies_noParameters (next : NextLexeme c (.symbol .rightParen) d) :
    (Phrase.parameters []).Copies start stop start' level c d := by
  intro inside followed
  exact .noParameters ((followed.of_next next (by simp)).nextLexeme copied inside next)

/-- All that makes a parameter is copied. -/
theorem copy_parameter
    {nullable : Bool}
    {typed listed : Cursor}
    (inside : start ≤ c)
    (followed : TokenIn start stop start' listed)
    (next : NextLexeme c lexeme behind)
    (maybe : MayTake .question c nullable typed)
    (identifier : MayTakeIdentifier typed named)
    (read : readToken named = ⟨.ok ⟨.variable text, span⟩, listed⟩) :
    NextLexeme (start.copy start' c) lexeme (start.copy start' behind) ∧
      MayTake .question (start.copy start' c) nullable (start.copy start' typed) ∧
      MayTakeIdentifier (start.copy start' typed) (start.copy start' named) ∧
      readToken (start.copy start' named) =
        ⟨.ok ⟨.variable text, start.respan start' span⟩, start.copy start' listed⟩ := by
  have named' := followed.of_next ⟨span, read⟩ (by simp)
  have typed' := named'.of_mayTakeIdentifier identifier
  have here := typed'.of_mayTake maybe
  have inside_typed := Cursor.le_trans inside maybe.le
  have inside_named := Cursor.le_trans inside_typed identifier.le
  exact ⟨here.nextLexeme copied inside next, here.mayTake copied inside maybe,
    typed'.mayTakeIdentifier copied inside_typed identifier,
    named'.readToken copied inside_named read⟩

theorem copies_lastParameter
    {nullable : Bool}
    {typed listed : Cursor}
    (next : NextLexeme c lexeme behind)
    (other : lexeme ≠ .symbol .rightParen)
    (maybe : MayTake .question c nullable typed)
    (identifier : MayTakeIdentifier typed named)
    (read : readToken named = ⟨.ok ⟨.variable text, span⟩, listed⟩)
    (comma : MayTake .comma listed false listed)
    (closed : NextLexeme listed (.symbol .rightParen) d) :
    (Phrase.parameters [⟨text, span⟩]).Copies start stop start' level c d := by
  intro inside followed
  have between := followed.of_next closed (by simp)
  have inside' := Cursor.le_trans inside
    (Cursor.le_trans (Cursor.le_trans maybe.le identifier.le) (le_of_readToken read))
  obtain ⟨next', maybe', identifier', read'⟩ :=
    copy_parameter copied inside between next maybe identifier read
  exact .lastParameter next' other maybe' identifier' read' (between.mayTake copied inside' comma)
    (between.nextLexeme copied inside' closed)

theorem copies_moreParameters
    {nullable : Bool}
    {typed listed following : Cursor}
    {list : List Parameter}
    (next : NextLexeme c lexeme behind)
    (other : lexeme ≠ .symbol .rightParen)
    (maybe : MayTake .question c nullable typed)
    (identifier : MayTakeIdentifier typed named)
    (read : readToken named = ⟨.ok ⟨.variable text, span⟩, listed⟩)
    (comma : MayTake .comma listed true following)
    (parameters : Reads level (.parameters list) following d)
    (parameters' : (Phrase.parameters list).Copies start stop start' level following d) :
    (Phrase.parameters (⟨text, span⟩ :: list)).Copies start stop start' level c d := by
  intro inside followed
  have between := (followed.of_reads parameters rfl).of_taken comma
  have inside' := Cursor.le_trans inside
    (Cursor.le_trans (Cursor.le_trans maybe.le identifier.le) (le_of_readToken read))
  obtain ⟨next', maybe', identifier', read'⟩ :=
    copy_parameter copied inside between next maybe identifier read
  exact .moreParameters next' other maybe' identifier' read' (between.mayTake copied inside' comma)
    (parameters' (Cursor.le_trans inside' comma.le) followed)

theorem copies_arrowFunction
    {list : List Parameter}
    {opened closed arrow : Cursor}
    (next : NextLexeme c (.symbol .leftParen) opened)
    (parameters : Reads level (.parameters list) opened closed)
    (arrowed : NextLexeme closed (.symbol .doubleArrow) arrow)
    (body : Reads level (.expression 0 inner) arrow d)
    (parameters' : (Phrase.parameters list).Copies start stop start' level opened closed)
    (body' : (Phrase.expression 0 inner).Copies start stop start' level arrow d) :
    (Phrase.arrowFunction (.arrowFunction list inner)).Copies start stop start' level c d := by
  intro inside followed
  have between := (followed.of_reads body rfl).of_next arrowed (by simp)
  have here := (between.followed.of_reads parameters rfl).of_next next (by simp)
  have inside_opened := Cursor.le_trans inside next.le
  have inside_closed := Cursor.le_trans inside_opened parameters.le
  exact .arrowFunction (here.nextLexeme copied inside next)
    (parameters' inside_opened between.followed)
    (between.nextLexeme copied inside_closed arrowed)
    (body' (Cursor.le_trans inside_closed arrowed.le) followed)

/-! ### Entries -/

theorem copies_plainEntry
    {unpack : Bool}
    {value : Expression}
    (skipped : skipTrivia c = ⟨.ok (), first⟩)
    (ellipsis : MayTake .ellipsis c unpack behind)
    (reads : Reads level (.expression 0 value) behind d)
    (plain : (keyed && !unpack) = true → MayTake .doubleArrow d false d)
    (reads' : (Phrase.expression 0 value).Copies start stop start' level behind d) :
    (Phrase.entry keyed ⟨none, value, unpack, first.spanTo d⟩).Copies start stop start' level c
      d := by
  intro inside followed
  have here := (followed.of_starts reads.starts_expression).of_mayTake ellipsis
  have inside' := Cursor.le_trans inside ellipsis.le
  have starts := (Reads.plainEntry skipped ellipsis reads plain).starts_entry
  obtain ⟨skips, span⟩ := copy_spanned copied inside here skipped starts followed.le_stop
  rw [Phrase.copy, ArrayItem.respan_mk, span]
  exact .plainEntry skips (here.mayTake copied inside ellipsis) (reads' inside' followed)
    fun kept =>
      followed.mayTake_false copied (Cursor.le_trans inside' reads.le) (plain kept) (by simp)

theorem copies_keyedEntry
    {key value : Expression}
    {arrow : Cursor}
    (skipped : skipTrivia c = ⟨.ok (), first⟩)
    (ellipsis : MayTake .ellipsis c false c)
    (reads_key : Reads level (.expression 0 key) c arrow)
    (next : NextLexeme arrow (.symbol .doubleArrow) behind)
    (reads_value : Reads level (.expression 0 value) behind d)
    (key' : (Phrase.expression 0 key).Copies start stop start' level c arrow)
    (value' : (Phrase.expression 0 value).Copies start stop start' level behind d) :
    (Phrase.entry true ⟨some key, value, false, first.spanTo d⟩).Copies start stop start' level c
      d := by
  intro inside followed
  have between := (followed.of_reads reads_value rfl).of_next next (by simp)
  have here := between.followed.of_starts reads_key.starts_expression
  have inside' := Cursor.le_trans inside reads_key.le
  have starts := reads_key.starts_expression.mono (Cursor.le_trans next.le reads_value.le)
  obtain ⟨skips, span⟩ := copy_spanned copied inside here skipped starts followed.le_stop
  rw [Phrase.copy, ArrayItem.respan_mk, span]
  exact .keyedEntry skips (here.mayTake copied inside ellipsis) (key' inside between.followed)
    (between.nextLexeme copied inside' next) (value' (Cursor.le_trans inside' next.le) followed)

theorem copies_noEntries (next : NextLexeme c (.symbol close) d) :
    (Phrase.entries close keyed []).Copies start stop start' level c d := by
  intro inside followed
  exact .noEntries ((followed.of_next next (by simp)).nextLexeme copied inside next)

theorem copies_lastEntry
    {listed : Cursor}
    (next : NextLexeme c lexeme behind)
    (other : lexeme ≠ .symbol close)
    (entry : Reads level (.entry keyed item) c listed)
    (comma : MayTake .comma listed false listed)
    (closed : NextLexeme listed (.symbol close) d)
    (entry' : (Phrase.entry keyed item).Copies start stop start' level c listed) :
    (Phrase.entries close keyed [item]).Copies start stop start' level c d := by
  intro inside followed
  have between := followed.of_next closed (by simp)
  have here := between.followed.of_starts entry.starts_entry
  have inside' := Cursor.le_trans inside entry.le
  exact .lastEntry (here.nextLexeme copied inside next) other (entry' inside between.followed)
    (between.mayTake copied inside' comma) (between.nextLexeme copied inside' closed)

theorem copies_moreEntries
    {listed following : Cursor}
    (next : NextLexeme c lexeme behind)
    (other : lexeme ≠ .symbol close)
    (entry : Reads level (.entry keyed item) c listed)
    (comma : MayTake .comma listed true following)
    (entries : Reads level (.entries close keyed items) following d)
    (entry' : (Phrase.entry keyed item).Copies start stop start' level c listed)
    (entries' : (Phrase.entries close keyed items).Copies start stop start' level following d) :
    (Phrase.entries close keyed (item :: items)).Copies start stop start' level c d := by
  intro inside followed
  have between := (followed.of_reads entries rfl).of_taken comma
  have here := between.followed.of_starts entry.starts_entry
  have inside' := Cursor.le_trans inside entry.le
  exact .moreEntries (here.nextLexeme copied inside next) other (entry' inside between.followed)
    (between.mayTake copied inside' comma) (entries' (Cursor.le_trans inside' comma.le) followed)

/-! ### Accesses -/

theorem copies_plainMember
    {word : WordKind}
    (next : NextLexeme c (.word word text) d)
    (follows : NextLexeme d lexeme behind)
    (other : lexeme ≠ .symbol .leftParen) :
    (Phrase.member text none).Copies start stop start' level c d := by
  intro inside followed
  have member := (followed.of_next next (by simp)).nextLexeme copied inside next
  obtain ⟨_, _, follows', rfl | rfl | rfl⟩ :=
    followed.exists_nextLexeme copied (Cursor.le_trans inside next.le) follows
  · exact .plainMember member follows' other
  · exact .plainMember member follows' (by simp)
  · exact .plainMember member follows' (by simp)

theorem copies_calledMember
    {word : WordKind}
    (next : NextLexeme c (.word word text) named)
    (opened : NextLexeme named (.symbol .leftParen) behind)
    (entries : Reads level (.entries .rightParen false items) behind d)
    (entries' : (Phrase.entries .rightParen false items).Copies start stop start' level behind
      d) :
    (Phrase.member text (some (items.map ArrayItem.toArgument))).Copies start stop start' level c
      d := by
  intro inside followed
  have between := (followed.of_reads entries rfl).of_next opened (by simp)
  have inside' := Cursor.le_trans inside next.le
  rw [Phrase.copy, Option.map_some, map_toArgument_respan]
  exact .calledMember ((between.of_next next (by simp)).nextLexeme copied inside next)
    (between.nextLexeme copied inside' opened)
    (entries' (Cursor.le_trans inside' opened.le) followed)

theorem copies_memberAccess
    {nullsafe : Bool}
    {arguments : Option (List (Argument Expression))}
    (next : NextLexeme c (.symbol (.memberArrow nullsafe)) behind)
    (member : Reads level (.member text arguments) behind d)
    (member' : (Phrase.member text arguments).Copies start stop start' level behind d) :
    (Phrase.access base (memberForm base nullsafe (text, arguments))).Copies start stop start'
      level c d := by
  intro inside followed
  have here := (followed.of_reads member rfl).of_next next (by simp)
  rw [Phrase.copy, ExpressionForm.respan_memberForm]
  exact .memberAccess (here.nextLexeme copied inside next)
    (member' (Cursor.le_trans inside next.le) followed)

theorem copies_staticAccess
    {arguments : Option (List (Argument Expression))}
    (next : NextLexeme c (.symbol .doubleColon) behind)
    (isName : base.isName = true)
    (member : Reads level (.member text arguments) behind d)
    (member' : (Phrase.member text arguments).Copies start stop start' level behind d) :
    (Phrase.access base (staticMemberForm base (text, arguments))).Copies start stop start' level c
      d := by
  intro inside followed
  have here := (followed.of_reads member rfl).of_next next (by simp)
  rw [Phrase.copy, ExpressionForm.respan_staticMemberForm]
  refine .staticAccess (here.nextLexeme copied inside next) ?_
    (member' (Cursor.le_trans inside next.le) followed)
  rw [Expression.isName_respan, isName]

theorem copies_entryAccess
    {index : Option Expression}
    (next : NextLexeme c (.symbol .leftBracket) behind)
    (optional : Reads level (.optional .rightBracket index) behind middle)
    (closed : NextLexeme middle (.symbol .rightBracket) d)
    (optional' : (Phrase.optional .rightBracket index).Copies start stop start' level behind
      middle) :
    (Phrase.access base (.entry base index)).Copies start stop start' level c d := by
  intro inside followed
  have between := followed.of_next closed (by simp)
  have here := (between.followed.of_reads optional rfl).of_next next (by simp)
  have inside' := Cursor.le_trans inside next.le
  exact .entryAccess (here.nextLexeme copied inside next) (optional' inside' between)
    (between.nextLexeme copied (Cursor.le_trans inside' optional.le) closed)

theorem copies_callAccess
    (next : NextLexeme c (.symbol .leftParen) behind)
    (callable : base.isCallable = true)
    (entries : Reads level (.entries .rightParen false items) behind d)
    (entries' : (Phrase.entries .rightParen false items).Copies start stop start' level behind
      d) :
    (Phrase.access base (.call base (items.map ArrayItem.toArgument))).Copies start stop start'
      level c d := by
  intro inside followed
  have here := (followed.of_reads entries rfl).of_next next (by simp)
  rw [Phrase.copy, ExpressionForm.respan_call, map_toArgument_respan]
  refine .callAccess (here.nextLexeme copied inside next) ?_
    (entries' (Cursor.le_trans inside next.le) followed)
  rw [Expression.isCallable_respan, callable]

theorem copies_noAccess
    (next : NextLexeme c lexeme behind)
    (other : lexeme.accesses base = false) :
    (Phrase.accesses first base base.nameAsConstant).Copies start stop start' level c c := by
  rintro inside ⟨-, -, followed⟩
  rw [Phrase.copy, Expression.respan_nameAsConstant]
  obtain ⟨_, _, next', rfl | rfl | rfl⟩ := followed.exists_nextLexeme copied inside next
  · exact .noAccess next' (by rw [Lexeme.accesses_respan, other])
  · exact .noAccess next' rfl
  · exact .noAccess next' rfl

theorem copies_moreAccesses
    (access : Reads level (.access base form) c middle)
    (accesses : Reads level (.accesses first ⟨form, first.spanTo middle⟩ whole) middle d)
    (access' : (Phrase.access base form).Copies start stop start' level c middle)
    (accesses' : (Phrase.accesses first ⟨form, first.spanTo middle⟩ whole).Copies start stop start'
      level middle d) :
    (Phrase.accesses first base whole).Copies start stop start' level c d := by
  rintro inside ⟨inside', order, followed⟩
  have between := followed.of_reads accesses rfl
  have order' := Cursor.le_trans order access.le
  have rest := accesses' (Cursor.le_trans inside access.le) ⟨inside', order', followed⟩
  rw [Phrase.copy, respan_spanTo copied inside' order' between.le_stop] at rest
  exact .moreAccesses (access' inside between) rest

end HostCode

end EmbeddedMarkup
