import EmbeddedMarkup.Expression.Syntax

/-!
# What stands in a tree

Elements hold expressions and expressions hold elements, so what stands somewhere in a tree is
reached by descending through both.  An element includes itself, what its child elements include,
and what the expressions in its header and content include; an expression includes what its parts
include and, if it is markup, what its element includes.

A property of all elements that are included is established one layer at a time.  The elements that
are passed on a way down the tree are a path.
-/

namespace EmbeddedMarkup

variable {ε : Type}

/-- The key, if there is one, and the value of an array item. -/
def ArrayItem.parts (item : ArrayItem ε) : List ε :=
  item.key.toList ++ [item.value]

/-- The expressions that a form is made of, apart from those in markup. -/
def ExpressionForm.parts : ExpressionForm ε → List ε
  | .array items => items.flatMap ArrayItem.parts
  | .property object _ _ => [object]
  | .methodCall object _ arguments _ => object :: arguments.map Argument.value
  | .staticCall owner _ arguments => owner :: arguments.map Argument.value
  | .classConstant owner _ => [owner]
  | .call callee arguments => callee :: arguments.map Argument.value
  | .entry collection index => collection :: index.toList
  | .binary _ left right => [left, right]
  | .not operand => [operand]
  | .negate operand => [operand]
  | .ternary condition ifTrue ifFalse => condition :: (ifTrue.toList ++ [ifFalse])
  | .assign target value => [target, value]
  | .arrowFunction _ body => [body]
  | _ => []

/-- The expression of an entry in a header. -/
def AttributeItem.expression : AttributeItem ε → ε
  | .named item => item.value
  | .spread item => item.expression

/-- The span of an entry in a header. -/
def AttributeItem.span : AttributeItem ε → Span
  | .named item => item.span
  | .spread item => item.span

/-- The span of a child. -/
def Child.span : Child ε → Span
  | .element child => child.span
  | .text child => child.span
  | .hole child => child.span
  | .comment child => child.span

mutual

/-- `inner` is the element, or stands somewhere in it. -/
inductive Element.Includes : Element Expression → Element Expression → Prop
  | self {element : Element Expression} : Element.Includes element element
  | item {outer inner : Element Expression} {item : AttributeItem Expression} :
      item ∈ outer.attributes →
      Expression.Includes item.expression inner →
      Element.Includes outer inner
  | child {outer inner : Element Expression} {child : Child Expression} :
      child ∈ outer.children →
      Child.Includes child inner →
      Element.Includes outer inner

/-- `inner` stands somewhere in the child. -/
inductive Child.Includes : Child Expression → Element Expression → Prop
  | element {outer inner : Element Expression} :
      Element.Includes outer inner →
      Child.Includes (.element outer) inner
  | hole {hole : Hole Expression} {inner : Element Expression} :
      Expression.Includes hole.expression inner →
      Child.Includes (.hole hole) inner

/-- `inner` stands somewhere in the expression. -/
inductive Expression.Includes : Expression → Element Expression → Prop
  | markup {outer inner : Element Expression} {span : Span} :
      Element.Includes outer inner →
      Expression.Includes ⟨.markup outer, span⟩ inner
  | part {whole part : Expression} {inner : Element Expression} :
      part ∈ whole.form.parts →
      Expression.Includes part inner →
      Expression.Includes whole inner

end

variable {Holds : Element Expression → Prop}

/-- Every element that the element includes has the property. -/
def Element.All (Holds : Element Expression → Prop) (element : Element Expression) : Prop :=
  ∀ inner, element.Includes inner → Holds inner

/-- Every element that the child includes has the property. -/
def Child.All (Holds : Element Expression → Prop) (child : Child Expression) : Prop :=
  ∀ inner, child.Includes inner → Holds inner

/-- Every element that the expression includes has the property. -/
def Expression.All (Holds : Element Expression → Prop) (expression : Expression) : Prop :=
  ∀ inner, expression.Includes inner → Holds inner

/-- A property of all elements in an element holds of it and in everything that it is made of. -/
theorem Element.all_of_parts
    {element : Element Expression}
    (here : Holds element)
    (items : ∀ item ∈ element.attributes, item.expression.All Holds)
    (children : ∀ child ∈ element.children, child.All Holds) :
    element.All Holds := by
  intro inner included
  cases included with
  | self => exact here
  | item member included => exact items _ member inner included
  | child member included => exact children _ member inner included

theorem Child.all_element
    {element : Element Expression}
    (inside : element.All Holds) :
    (Child.element element).All Holds := by
  intro inner included
  cases included with
  | element included => exact inside inner included

theorem Child.all_hole
    {hole : Hole Expression}
    (inside : hole.expression.All Holds) :
    (Child.hole hole).All Holds := by
  intro inner included
  cases included with
  | hole included => exact inside inner included

theorem Child.all_text {text : LiteralText} : (Child.text text).All Holds := by
  intro inner included
  cases included

theorem Child.all_comment {comment : Comment} : (Child.comment comment).All Holds := by
  intro inner included
  cases included

theorem Expression.all_markup
    {element : Element Expression}
    {span : Span}
    (inside : element.All Holds) :
    Expression.All Holds ⟨.markup element, span⟩ := by
  intro inner included
  cases included with
  | markup included => exact inside inner included
  | part member _ => cases member

/-- A property of all elements in an expression that is no markup is one of its parts. -/
theorem Expression.all_of_parts
    {form : ExpressionForm Expression}
    {span : Span}
    (unmarked : ∀ element, form ≠ .markup element)
    (parts : ∀ part ∈ form.parts, Expression.All Holds part) :
    Expression.All Holds ⟨form, span⟩ := by
  intro inner included
  cases included with
  | markup _ => exact absurd rfl (unmarked _)
  | part member included => exact parts _ member inner included

/-- What holds in a name holds in the constant that it may become. -/
theorem Expression.all_nameAsConstant
    {expression : Expression}
    (inside : expression.All Holds) :
    expression.nameAsConstant.All Holds := by
  unfold nameAsConstant
  split
  · exact all_of_parts (by simp) (by simp [ExpressionForm.parts])
  · exact inside

/-! ## Paths -/

mutual

/-- The elements that are passed on a way from the element downwards, itself first. -/
inductive Element.Path : Element Expression → List (Element Expression) → Prop
  | here {element : Element Expression} : Element.Path element [element]
  | item {element : Element Expression} {item : AttributeItem Expression}
      {path : List (Element Expression)} :
      item ∈ element.attributes →
      Expression.Path item.expression path →
      Element.Path element (element :: path)
  | child {element : Element Expression} {child : Child Expression}
      {path : List (Element Expression)} :
      child ∈ element.children →
      Child.Path child path →
      Element.Path element (element :: path)

/-- The elements that are passed on a way from the child downwards. -/
inductive Child.Path : Child Expression → List (Element Expression) → Prop
  | here {child : Child Expression} : Child.Path child []
  | element {element : Element Expression} {path : List (Element Expression)} :
      Element.Path element path →
      Child.Path (.element element) path
  | hole {hole : Hole Expression} {path : List (Element Expression)} :
      Expression.Path hole.expression path →
      Child.Path (.hole hole) path

/-- The elements that are passed on a way from the expression downwards. -/
inductive Expression.Path : Expression → List (Element Expression) → Prop
  | here {expression : Expression} : Expression.Path expression []
  | markup {element : Element Expression} {span : Span} {path : List (Element Expression)} :
      Element.Path element path →
      Expression.Path ⟨.markup element, span⟩ path
  | part {whole part : Expression} {path : List (Element Expression)} :
      part ∈ whole.form.parts →
      Expression.Path part path →
      Expression.Path whole path

end

/-- A path from an expression downwards passes no element, or it is one of an element inside. -/
theorem Expression.Path.exists_includes :
    {expression : Expression} → {path : List (Element Expression)} → expression.Path path →
      path = [] ∨ ∃ element, expression.Includes element ∧ element.Path path
  | _, _, .here => .inl rfl
  | _, _, .markup passes => .inr ⟨_, .markup .self, passes⟩
  | _, _, .part member passes => by
      rcases passes.exists_includes with none | ⟨element, included, passes⟩
      · exact .inl none
      · exact .inr ⟨element, .part member included, passes⟩

/-- A path from a child downwards passes no element, or it is one of an element inside. -/
theorem Child.Path.exists_includes
    {child : Child Expression}
    {path : List (Element Expression)}
    (passes : child.Path path) :
    path = [] ∨ ∃ element, child.Includes element ∧ element.Path path := by
  cases passes with
  | here => exact .inl rfl
  | element passes => exact .inr ⟨_, .element .self, passes⟩
  | hole passes =>
      rcases passes.exists_includes with none | ⟨element, included, passes⟩
      · exact .inl none
      · exact .inr ⟨element, .hole included, passes⟩

end EmbeddedMarkup
