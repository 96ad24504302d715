import EmbeddedMarkup.Proofs.Tree.Spans

/-!
# Trees of spans

A tree of spans shows where the nodes of a tree stand and which parts a node has, in the order in
which they are written.  Nodes are expressions, the items, arguments and parameters in them,
elements, the entries of their headers, and their children.  An expression that is markup has its
element as its only part.
-/

namespace EmbeddedMarkup

/-- The span of a node and the trees of its parts, in the order in which they are written. -/
inductive SpanTree where
  | node (span : Span) (parts : List SpanTree)

namespace SpanTree

/-- The span of the whole. -/
def span : SpanTree → Span
  | node span _ => span

end SpanTree

/-! ## Layers -/

/-- A parameter has no parts. -/
def Parameter.spanTree (parameter : Parameter) : SpanTree :=
  .node parameter.span []

/-- An item whose key and value are trees of spans. -/
def ArrayItem.toSpanTree (item : ArrayItem SpanTree) : SpanTree :=
  .node item.span (item.key.toList ++ [item.value])

/-- An argument whose value is a tree of spans. -/
def Argument.toSpanTree (argument : Argument SpanTree) : SpanTree :=
  .node argument.span [argument.value]

/-- An entry of a header whose expression is a tree of spans. -/
def AttributeItem.toSpanTree : AttributeItem SpanTree → SpanTree
  | .named item => .node item.span [item.value]
  | .spread item => .node item.span [item.expression]

mutual

/-- An element whose expressions are trees of spans: first its header, then its content. -/
def Element.toSpanTree : Element SpanTree → SpanTree
  | ⟨_, items, children, _, span⟩ =>
      .node span (items.map AttributeItem.toSpanTree ++ Child.toSpanTrees children)

/-- A child whose expressions are trees of spans. -/
def Child.toSpanTree : Child SpanTree → SpanTree
  | .element element => element.toSpanTree
  | .text text => .node text.span []
  | .hole hole => .node hole.span [hole.expression]
  | .comment comment => .node comment.span []

/-- Children whose expressions are trees of spans. -/
def Child.toSpanTrees : List (Child SpanTree) → List SpanTree
  | [] => []
  | child :: children => child.toSpanTree :: Child.toSpanTrees children

end

/-- What a form is made of, in the order in which it is written. -/
def ExpressionForm.toSpanTrees : ExpressionForm SpanTree → List SpanTree
  | .array items => items.map ArrayItem.toSpanTree
  | .property object _ _ => [object]
  | .methodCall object _ arguments _ => object :: arguments.map Argument.toSpanTree
  | .staticCall owner _ arguments => owner :: arguments.map Argument.toSpanTree
  | .classConstant owner _ => [owner]
  | .call callee arguments => callee :: arguments.map Argument.toSpanTree
  | .entry collection index => collection :: index.toList
  | .binary _ left right => [left, right]
  | .not operand => [operand]
  | .negate operand => [operand]
  | .ternary condition ifTrue ifFalse => condition :: (ifTrue.toList ++ [ifFalse])
  | .assign target value => [target, value]
  | .arrowFunction parameters body => parameters.map Parameter.spanTree ++ [body]
  | .markup element => [element.toSpanTree]
  | .variable _ | .constant _ | .bareName _ | .string _ | .int _ | .float _ => []

theorem Child.toSpanTrees_eq (children : List (Child SpanTree)) :
    Child.toSpanTrees children = children.map Child.toSpanTree := by
  induction children with
  | nil => rfl
  | cons child children ih => rw [Child.toSpanTrees, List.map_cons, ih]

/-! ## Trees -/

/-- The spans of an expression. -/
def Expression.spanTree (expression : Expression) : SpanTree :=
  expression.fold fun form span => .node span form.toSpanTrees

/-- The spans of an item of an array literal. -/
def ArrayItem.spanTree (item : ArrayItem Expression) : SpanTree :=
  (item.map Expression.spanTree).toSpanTree

/-- The spans of an argument. -/
def Argument.spanTree (argument : Argument Expression) : SpanTree :=
  (argument.map Expression.spanTree).toSpanTree

/-- The spans of an entry of a header. -/
def AttributeItem.spanTree (item : AttributeItem Expression) : SpanTree :=
  (item.map Expression.spanTree).toSpanTree

/-- The spans of an element. -/
def Element.spanTree (element : Element Expression) : SpanTree :=
  (element.map Expression.spanTree).toSpanTree

/-- The spans of a child. -/
def Child.spanTree (child : Child Expression) : SpanTree :=
  (child.map Expression.spanTree).toSpanTree

/-- The spans of what a form is made of. -/
def ExpressionForm.spanTrees (form : ExpressionForm Expression) : List SpanTree :=
  (form.map Expression.spanTree).toSpanTrees

/-- The parts of an expression are those of its form. -/
theorem Expression.spanTree_mk (form : ExpressionForm Expression) (span : Span) :
    Expression.spanTree ⟨form, span⟩ = .node span form.spanTrees := by
  rw [spanTree, fold_mk]
  rfl

/-- A name that becomes a constant stays where it is. -/
@[simp] theorem Expression.spanTree_nameAsConstant (expression : Expression) :
    expression.nameAsConstant.spanTree = expression.spanTree := by
  obtain ⟨form, span⟩ := expression
  cases form <;> rfl

theorem Element.spanTree_mk
    (name : String)
    (items : List (AttributeItem Expression))
    (children : List (Child Expression))
    (closingName : Option String)
    (span : Span) :
    Element.spanTree ⟨name, items, children, closingName, span⟩ =
      .node span (items.map AttributeItem.spanTree ++ children.map Child.spanTree) := by
  simp only [spanTree, Element.map, toSpanTree, Child.mapAll_eq, Child.toSpanTrees_eq, List.map_map]
  rfl

theorem Child.spanTree_element (element : Element Expression) :
    (Child.element element).spanTree = element.spanTree := by
  simp [spanTree, Child.map, toSpanTree, Element.spanTree]

theorem Child.spanTree_text (text : LiteralText) :
    (Child.text text).spanTree = .node text.span [] := by
  simp [spanTree, Child.map, toSpanTree]

theorem Child.spanTree_hole (expression : Expression) (span : Span) :
    (Child.hole ⟨expression, span⟩).spanTree = .node span [expression.spanTree] := by
  simp [spanTree, Child.map, toSpanTree]

theorem Child.spanTree_comment (comment : Comment) :
    (Child.comment comment).spanTree = .node comment.span [] := by
  simp [spanTree, Child.map, toSpanTree]

theorem ArrayItem.spanTree_mk
    (key : Option Expression)
    (value : Expression)
    (unpack : Bool)
    (span : Span) :
    ArrayItem.spanTree ⟨key, value, unpack, span⟩ =
      .node span (key.toList.map Expression.spanTree ++ [value.spanTree]) := by
  cases key <;> rfl

namespace ExpressionForm

theorem spanTrees_array (items : List (ArrayItem Expression)) :
    (array items).spanTrees = items.map ArrayItem.spanTree := by
  simp [spanTrees, map, toSpanTrees, ArrayItem.spanTree]

theorem spanTrees_memberForm
    (object : Expression)
    (nullsafe : Bool)
    (name : String)
    (arguments : Option (List (Argument Expression))) :
    (memberForm object nullsafe (name, arguments)).spanTrees =
      object.spanTree :: (arguments.getD []).map Argument.spanTree := by
  cases arguments <;> simp [memberForm, spanTrees, map, toSpanTrees, Argument.spanTree]

theorem spanTrees_staticMemberForm
    (owner : Expression)
    (name : String)
    (arguments : Option (List (Argument Expression))) :
    (staticMemberForm owner (name, arguments)).spanTrees =
      owner.spanTree :: (arguments.getD []).map Argument.spanTree := by
  cases arguments <;> simp [staticMemberForm, spanTrees, map, toSpanTrees, Argument.spanTree]

theorem spanTrees_call (callee : Expression) (arguments : List (Argument Expression)) :
    (call callee arguments).spanTrees =
      callee.spanTree :: arguments.map Argument.spanTree := by
  simp [spanTrees, map, toSpanTrees, Argument.spanTree]

theorem spanTrees_entry (collection : Expression) (index : Option Expression) :
    (entry collection index).spanTrees =
      collection.spanTree :: index.toList.map Expression.spanTree := by
  cases index <;> rfl

theorem spanTrees_ternary (condition ifFalse : Expression) (ifTrue : Option Expression) :
    (ternary condition ifTrue ifFalse).spanTrees =
      condition.spanTree :: (ifTrue.toList.map Expression.spanTree ++ [ifFalse.spanTree]) := by
  cases ifTrue <;> rfl

end ExpressionForm
end EmbeddedMarkup
