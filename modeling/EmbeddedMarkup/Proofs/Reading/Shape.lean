import EmbeddedMarkup.Proofs.Markup.WellFormed
import EmbeddedMarkup.Proofs.Reading.RoundTrip
import EmbeddedMarkup.Proofs.Tree.Shape

/-!
# The shape of what is read

Whatever is read keeps the rules of the host language in all its expressions, by induction over the
rules of reading.  A bare name is carried along while accesses and calls may follow it, and becomes
a constant behind the last of them; by then a property, a method or an entry may have been accessed
on it.
-/

namespace EmbeddedMarkup

variable {c d : Cursor}

/-- What is accessed or called in front of a cursor: all in it keeps the rules. -/
structure Expression.IsShapedBase (c : Cursor) (base : Expression) : Prop where
  inside : base.KeepsRulesInside
  /-- In front of a parenthesis `array` is no name. -/
  plain : ∀ name, base.form = .bareName name → sameWord name "array" = true →
    ∃ lexeme behind, NextLexeme c lexeme behind ∧ lexeme ≠ .symbol .leftParen

/-- An item without a key where it is unpacked, made of shaped values. -/
structure ArrayItem.IsShaped (item : ArrayItem Expression) : Prop where
  unpacked : item.unpack = true → item.key = none
  parts : ∀ part ∈ item.parts, part.IsShaped

/-- What is read as a phrase between two cursors is shaped. -/
def Phrase.IsShaped (c d : Cursor) : Phrase → Prop
  | .expression _ whole => whole.IsShaped
  | .continuation _ _ left whole => left.IsShaped → whole.IsShaped
  | .connection _ left form => left.IsShaped → ∀ span, Expression.IsShaped ⟨form, span⟩
  | .optional _ part => ∀ expression ∈ part.toList, expression.IsShaped
  | .operand whole => whole.IsShaped
  | .primary base => base.IsShapedBase d
  | .parameters list => ∀ parameter ∈ list, IsIdentifier parameter.name.toList
  | .arrowFunction form => ∀ span, Expression.IsShaped ⟨form, span⟩
  | .entry _ item => item.IsShaped
  | .entries _ _ items => ∀ item ∈ items, item.IsShaped
  | .member _ arguments =>
      ∀ argument ∈ arguments.toList.flatten, argument.value.IsShaped
  | .access base form => base.IsShapedBase c → ∀ span, Expression.IsShaped ⟨form, span⟩
  | .accesses _ base whole => base.IsShapedBase c → whole.IsShaped
  | .element whole => ∀ part ∈ whole.expressions, part.IsShaped
  | .header tag => ∀ part ∈ tag.attributes.map AttributeItem.expression, part.IsShaped
  | .headerTail tail => ∀ part ∈ tail.1.map AttributeItem.expression, part.IsShaped
  | .attribute item => item.value.IsShaped
  | .attributeValue value => value.IsShaped
  | .hole part => ∀ expression ∈ part.toList, expression.IsShaped
  | .spread inner => inner.IsShaped
  | .braces child => ∀ part ∈ child.expressions, part.IsShaped
  | .content _ _ children => ∀ part ∈ Child.expressionsOfAll children, part.IsShaped

/-! ## Literals and names -/

/-- A word that is no keyword is a plain name. -/
theorem isPlainName_of_ofText {name : String} (kind : .identifier = WordKind.ofText name) :
    IsPlainName name := by
  unfold WordKind.ofText at kind
  intro keyword member
  simp only [keywords, List.mem_cons, List.not_mem_nil, or_false] at member
  rcases member with rfl | rfl | rfl | rfl <;> grind

section Expressions

variable {base left right : Expression} {form : ExpressionForm Expression} {span : Span}

namespace Expression

/-- A shaped value can be accessed and called. -/
theorem IsShaped.isShapedBase (shaped : base.IsShaped) : base.IsShapedBase c := by
  refine ⟨shaped.inside, fun name named => ?_⟩
  have value := shaped.value
  simp [isName, named] at value

/-- A lexeme that is an expression alone is shaped. -/
theorem isShaped_leaf
    {lexeme : Lexeme}
    (next : NextLexeme c lexeme d)
    (leaf : lexeme.leaf? = some form) :
    IsShaped ⟨form, span⟩ := by
  cases lexeme with
  | «variable» name =>
      cases leaf
      exact isShaped_mk rfl next.isIdentifier (List.forall_mem_nil _)
        (List.forall_mem_nil _)
  | int value =>
      cases leaf
      exact isShaped_mk rfl (Int.natCast_nonneg value) (List.forall_mem_nil _)
        (List.forall_mem_nil _)
  | float value | string value =>
      cases leaf
      exact isShaped_mk rfl trivial (List.forall_mem_nil _) (List.forall_mem_nil _)
  | _ => cases leaf

/-- A name is accessed or called, unless it is `array` in front of a parenthesis. -/
theorem isShapedBase_name
    {name : String}
    (next : NextLexeme c (.word .identifier name) d)
    (plain : sameWord name "array" = true →
      ∃ lexeme behind, NextLexeme d lexeme behind ∧ lexeme ≠ .symbol .leftParen) :
    IsShapedBase d ⟨.bareName name, span⟩ := by
  refine ⟨keepsRulesInside_mk (isPlainName_of_ofText next.isWord.2) (List.forall_mem_nil _)
    (List.forall_mem_nil _), ?_⟩
  rintro _ ⟨⟩
  exact plain

/-- Where no access follows, a name becomes a constant. -/
theorem IsShapedBase.alone (shaped : base.IsShapedBase c) : base.nameAsConstant.IsShaped := by
  obtain ⟨form, span⟩ := base
  cases form with
  | bareName name => exact isShaped_constant (shaped.inside _ .self).form
  | _ => exact ⟨rfl, shaped.inside⟩

/-! ## Operators -/

/-- A form of operands alone. -/
theorem isShaped_of_operands
    (value : isName ⟨form, span⟩ = false)
    (rules : form.KeepsRules)
    (operands : ∀ part ∈ form.operands, part.IsShaped)
    (whole : form.callee?.toList ++ form.owner?.toList ++ form.base?.toList = []) :
    IsShaped ⟨form, span⟩ :=
  isShaped_mk value rules (whole ▸ List.forall_mem_nil _) operands

theorem IsShaped.assign
    (shaped : left.IsShaped)
    (assignable : left.isAssignable = true)
    (shaped' : right.IsShaped) :
    IsShaped ⟨.assign left right, span⟩ := by
  have target : left.form.IsTarget := by
    obtain ⟨form, span⟩ := left
    cases form <;> trivial
  exact isShaped_of_operands rfl target
    (List.forall_mem_cons.mpr ⟨shaped, List.forall_mem_singleton.mpr shaped'⟩) rfl

theorem IsShaped.ternary
    {ifTrue : Option Expression}
    (shaped : left.IsShaped)
    (alternative : ∀ part ∈ ifTrue.toList, part.IsShaped)
    (shaped' : right.IsShaped) :
    IsShaped ⟨.ternary left ifTrue right, span⟩ :=
  isShaped_of_operands rfl trivial
    (List.forall_mem_cons.mpr ⟨shaped, List.forall_mem_append.mpr
      ⟨alternative, List.forall_mem_singleton.mpr shaped'⟩⟩) rfl

theorem isShaped_array
    {items : List (ArrayItem Expression)}
    (shaped : ∀ item ∈ items, item.IsShaped) :
    IsShaped ⟨.array items, span⟩ := by
  refine isShaped_of_operands rfl (fun item member => (shaped item member).unpacked) ?_ rfl
  intro part member
  obtain ⟨item, listed, inside⟩ := List.mem_flatMap.mp member
  exact (shaped item listed).parts part inside

/-! ## Accesses -/

/-- The values of entries without keys are the values of arguments. -/
theorem isShaped_arguments
    {items : List (ArrayItem Expression)}
    (shaped : ∀ item ∈ items, item.IsShaped) :
    ∀ argument ∈ items.map ArrayItem.toArgument, argument.value.IsShaped := by
  intro argument member
  obtain ⟨item, listed, rfl⟩ := List.mem_map.mp member
  exact (shaped item listed).parts _ (List.mem_append_right _ List.mem_cons_self)

section Member

variable {name : String} {arguments : Option (List (Argument Expression))}

theorem keepsRules_memberForm {nullsafe : Bool} :
    (memberForm base nullsafe (name, arguments)).KeepsRules := by
  cases arguments <;> trivial

theorem keepsRules_staticMemberForm (named : base.isName = true) :
    (staticMemberForm base (name, arguments)).KeepsRules := by
  cases arguments <;> exact named

theorem IsShapedBase.access
    (shaped : base.IsShapedBase c)
    (member : ExpressionForm.IsMember base arguments form)
    (rules : form.KeepsRules)
    (inside : ∀ argument ∈ arguments.toList.flatten, argument.value.IsShaped) :
    IsShaped ⟨form, span⟩ := by
  have value : isName ⟨form, span⟩ = false := by
    cases member <;> cases arguments <;> rfl
  have head : form.callee?.toList ++ form.owner?.toList ++ form.base?.toList = [base] := by
    cases member <;> cases arguments <;> rfl
  have operands : form.operands = arguments.toList.flatten.map Argument.value := by
    cases member <;> cases arguments <;>
      simp [memberForm, staticMemberForm, ExpressionForm.operands]
  refine isShaped_mk value rules ?_ ?_
  · rw [head]
    exact List.forall_mem_singleton.mpr shaped.inside
  · rw [operands]
    exact List.forall_mem_map.mpr inside

end Member

theorem IsShapedBase.entry
    {index : Option Expression}
    (shaped : base.IsShapedBase c)
    (inside : ∀ part ∈ index.toList, part.IsShaped) :
    IsShaped ⟨.entry base index, span⟩ :=
  isShaped_mk rfl trivial (List.forall_mem_singleton.mpr shaped.inside) inside

theorem IsShapedBase.call
    {arguments : List (Argument Expression)}
    (shaped : base.IsShapedBase c)
    (next : NextLexeme c (.symbol .leftParen) d)
    (callable : base.isCallable = true)
    (inside : ∀ argument ∈ arguments, argument.value.IsShaped) :
    IsShaped ⟨.call base arguments, span⟩ := by
  have called : ¬base.form.IsUncalled := by
    obtain ⟨form, span⟩ := base
    cases form with
    | bareName name =>
        intro array
        obtain ⟨lexeme, behind, next', other⟩ := shaped.plain name rfl array
        exact other (next'.unique next).1
    | int | float | array | markup => cases callable
    | _ => exact id
  exact isShaped_mk rfl called (List.forall_mem_singleton.mpr shaped.inside)
    (List.forall_mem_map.mpr inside)

end Expression

end Expressions

/-! ## Markup -/

/-- Literal text holds no expressions. -/
theorem expressionsOfAll_literalText_append
    (length : Nat)
    (left right : Boundary)
    (children : List (Child Expression)) :
    Child.expressionsOfAll (literalText c length left right ++ children) =
      Child.expressionsOfAll children := by
  unfold literalText
  split <;> rfl

/-- The expression of a hole, which is null if there is none. -/
theorem isShaped_getD
    {part : Option Expression}
    {span : Span}
    (shaped : ∀ expression ∈ part.toList, expression.IsShaped) :
    (part.getD (HostConstants.nullAt span)).IsShaped := by
  cases part with
  | none => exact Expression.isShaped_constant (by decide)
  | some expression => exact shaped expression List.mem_cons_self

/-! ## The rules -/

/-- Every phrase that is read is shaped. -/
theorem isShaped_of_reads
    {level : Nat}
    {phrase : Phrase}
    (reads : Reads level phrase c d) :
    phrase.IsShaped c d := by
  induction reads with
  | expression _ _ _ operand continuation => exact continuation operand
  | stop => exact id
  | connect _ _ _ _ _ connection continuation =>
      exact fun left => continuation (connection left _)
  | binary _ operand =>
      exact fun left _ => Expression.isShaped_of_operands rfl trivial
        (List.forall_mem_cons.mpr ⟨left, List.forall_mem_singleton.mpr operand⟩) rfl
  | assign assignable _ value => exact fun left _ => left.assign assignable value
  | ternary _ _ _ ifTrue ifFalse => exact fun left _ => left.ternary ifTrue ifFalse
  | absent => exact List.forall_mem_nil _
  | present _ _ _ part => exact List.forall_mem_singleton.mpr part
  | markup _ _ _ element => exact Expression.isShaped_of_operands rfl trivial element rfl
  | not _ _ _ _ inner | negate _ _ _ _ inner =>
      exact Expression.isShaped_of_operands rfl trivial (List.forall_mem_singleton.mpr inner) rfl
  | unsigned _ _ _ _ _ _ _ primary accesses => exact accesses primary
  | leaf _ next leaf => exact (Expression.isShaped_leaf next leaf).isShapedBase
  | name _ next plain => exact Expression.isShapedBase_name next plain
  | arrayCall _ _ _ _ _ items | array _ _ _ items =>
      exact (Expression.isShaped_array items).isShapedBase
  | function _ _ _ arrow => exact (arrow _).isShapedBase
  | parenthesized _ _ _ inner => exact inner.isShapedBase
  | noParameters => exact List.forall_mem_nil _
  | lastParameter _ _ _ _ read _ _ =>
      exact List.forall_mem_singleton.mpr (NextLexeme.isIdentifier ⟨_, read⟩)
  | moreParameters _ _ _ _ read _ _ others =>
      exact List.forall_mem_cons.mpr ⟨NextLexeme.isIdentifier ⟨_, read⟩, others⟩
  | arrowFunction _ _ _ _ names body =>
      exact fun _ => Expression.isShaped_of_operands rfl names
        (List.forall_mem_singleton.mpr body) rfl
  | plainEntry _ _ _ _ value => exact ⟨fun _ => rfl, List.forall_mem_singleton.mpr value⟩
  | keyedEntry _ _ _ _ _ key value =>
      exact ⟨fun unpacked => absurd unpacked Bool.false_ne_true,
        List.forall_mem_cons.mpr ⟨key, List.forall_mem_singleton.mpr value⟩⟩
  | noEntries => exact List.forall_mem_nil _
  | lastEntry _ _ _ _ _ item => exact List.forall_mem_singleton.mpr item
  | moreEntries _ _ _ _ _ item items => exact List.forall_mem_cons.mpr ⟨item, items⟩
  | plainMember => exact List.forall_mem_nil _
  | calledMember _ _ _ items => simpa [Phrase.IsShaped] using Expression.isShaped_arguments items
  | memberAccess _ _ arguments =>
      exact fun base _ => base.access .ofObject Expression.keepsRules_memberForm arguments
  | entryAccess _ _ _ index => exact fun base _ => base.entry index
  | callAccess next callable _ items =>
      exact fun base _ => base.call next callable (Expression.isShaped_arguments items)
  | staticAccess _ named _ arguments =>
      exact fun base _ =>
        base.access .ofClass (Expression.keepsRules_staticMemberForm named) arguments
  | noAccess => exact fun base => base.alone
  | moreAccesses _ _ access accesses => exact fun base => accesses (access base _).isShapedBase
  | emptyHole => exact List.forall_mem_nil _
  | filledHole _ _ _ inner => exact List.forall_mem_singleton.mpr inner
  | spread _ _ _ inner => exact inner
  | quotedValue =>
      exact Expression.isShaped_of_operands rfl trivial (List.forall_mem_nil _) rfl
  | holeValue _ _ hole => exact isShaped_getD hole
  | bareAttribute => exact Expression.isShaped_constant (by decide)
  | valuedAttribute _ _ _ _ _ value => exact value
  | headerEnd | selfClosingEnd | fragmentHeader => exact List.forall_mem_nil _
  | spreadItem _ _ _ operand tail => exact List.forall_mem_cons.mpr ⟨operand, tail⟩
  | attributeItem _ _ item tail => exact List.forall_mem_cons.mpr ⟨item, tail⟩
  | namedHeader _ _ tail => exact tail
  | selfClosingElement _ _ _ header =>
      exact List.forall_mem_append.mpr ⟨header, List.forall_mem_nil _⟩
  | closedElement _ _ _ _ header content => exact List.forall_mem_append.mpr ⟨header, content⟩
  | comment => exact List.forall_mem_nil _
  | hole _ _ _ hole => exact List.forall_mem_singleton.mpr (isShaped_getD hole)
  | @closeContent _ length _ left c =>
      have plain := expressionsOfAll_literalText_append (c := c) length left .tag []
      rw [List.append_nil] at plain
      rw [Phrase.IsShaped, plain]
      exact List.forall_mem_nil _
  | elementChild _ _ _ element content | bracesChild _ _ _ element content =>
      rw [Phrase.IsShaped, expressionsOfAll_literalText_append]
      exact List.forall_mem_append.mpr ⟨element, content⟩

/-! ## Documents and expressions -/

/--
In a document and in an expression all expressions keep the rules of the host language, at any
depth and in markup too.  Bare names are confined to their places exactly where nothing is accessed
on a name.
-/
theorem isShaped_of_ofText (text : String) (budget : Nat) :
    (∀ document, Document.ofText text budget = .ok document →
      ∀ element ∈ document.elements, ∀ expression ∈ element.expressions,
        expression.IsShaped ∧ (expression.ConfinesNames ↔
          ∀ inner, expression.Contains inner → inner.accessesName = false)) ∧
    ∀ expression, Expression.ofText text budget = .ok expression →
      expression.IsShaped ∧ (expression.ConfinesNames ↔
        ∀ inner, expression.Contains inner → inner.accessesName = false) := by
  constructor
  · intro document read element member expression inside
    obtain ⟨first, behind, reads⟩ := Document.reads_of_mem_ofText read member
    have shaped : expression.IsShaped := isShaped_of_reads reads expression inside
    exact ⟨shaped, shaped.confinesNames_iff⟩
  · intro expression read
    obtain ⟨stop, behind, reads, -⟩ := reads_of_ofText read
    have shaped : expression.IsShaped := isShaped_of_reads reads
    exact ⟨shaped, shaped.confinesNames_iff⟩

/-- The expressions of an element are told by the element without its spans. -/
theorem withoutSpans_expressions_of_element
    {element other : Element Expression}
    (same : element.withoutSpans = other.withoutSpans) :
    element.expressions.map Expression.withoutSpans =
      other.expressions.map Expression.withoutSpans := by
  have expressions := congrArg Element.expressions same
  rwa [Element.withoutSpans, Element.withoutSpans, Element.expressions_unspanned,
    Element.expressions_unspanned, Element.expressions_map, Element.expressions_map] at expressions

/--
The first expression of a document, and a property that is accessed on a name, keep the rules.
-/
theorem isShaped_of_ofText_examples :
    (∃ budget element expression,
      Document.ofText "<a x = '1'> hi {$y}<b /></a >" budget = .ok ⟨[element]⟩ ∧
        expression ∈ element.expressions ∧
        expression.IsShaped ∧ (expression.ConfinesNames ↔
          ∀ inner, expression.Contains inner → inner.accessesName = false)) ∧
    ∃ budget expression, Expression.ofText "A -> b" budget = .ok expression ∧
      expression.IsShaped ∧ (expression.ConfinesNames ↔
        ∀ inner, expression.Contains inner → inner.accessesName = false) := by
  constructor
  · have written : IsElement "<a x = '1'> hi {$y}<b /></a >".toList greeting :=
      writes_greeting.isReadAs
    obtain ⟨element, budget, same, read⟩ :=
      @Document.exists_ofText_withoutSpans "<a x = '1'> hi {$y}<b /></a >" _ [] _ written
        (List.append_nil _).symm (congrArg Prod.fst (HostScanner.next_of_ended rfl))
    have read := read budget (Nat.le_refl budget)
    have parts := withoutSpans_expressions_of_element same
    obtain ⟨expression, others, listed⟩ : ∃ expression others,
        element.expressions = expression :: others := by
      refine List.exists_cons_of_ne_nil fun none => ?_
      rw [none] at parts
      cases parts
    have member : expression ∈ element.expressions := listed ▸ List.mem_cons_self
    exact ⟨budget, element, expression, read, member,
      (isShaped_of_ofText _ budget).1 _ read element List.mem_cons_self expression member⟩
  · obtain ⟨budget, first, whole, read⟩ := Expression.exists_ofText_namedProperty
    exact ⟨budget, _, read, (isShaped_of_ofText "A -> b" budget).2 _ read⟩

/-- Where a property is accessed on a name, the name stands out of its place. -/
theorem not_confinesNames_namedProperty :
    ∃ budget expression, Expression.ofText "A -> b" budget = .ok expression ∧
      ¬expression.ConfinesNames := by
  obtain ⟨budget, first, whole, read⟩ := Expression.exists_ofText_namedProperty
  refine ⟨budget, _, read, fun confined => ?_⟩
  have named := confined.2 _ .self ⟨.bareName "A", first⟩ List.mem_cons_self
  cases named

end EmbeddedMarkup
