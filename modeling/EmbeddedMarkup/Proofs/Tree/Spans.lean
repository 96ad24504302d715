import EmbeddedMarkup.Expression.Reader

/-!
# Trees without their spans

Spans tell where a tree was read.  Without them a tree is what it says, so that trees read from
differently laid out sources can be compared: they are the same up to spans when they are equal
without them.
-/

namespace EmbeddedMarkup

section Layers

variable {ε : Type}

/-- An item without its own span. -/
def ArrayItem.unspanned (item : ArrayItem ε) : ArrayItem ε :=
  { item with span := default }

/-- An argument without its own span. -/
def Argument.unspanned (argument : Argument ε) : Argument ε :=
  { argument with span := default }

/-- A parameter without its span. -/
def Parameter.unspanned (parameter : Parameter) : Parameter :=
  { parameter with span := default }

/-- An entry of a header without its own span. -/
def AttributeItem.unspanned : AttributeItem ε → AttributeItem ε
  | .named item => .named { item with span := default }
  | .spread item => .spread { item with span := default }

mutual

/-- An element without the spans of its markup. -/
def Element.unspanned : Element ε → Element ε
  | ⟨name, items, children, closingName, _⟩ =>
      ⟨name, items.map AttributeItem.unspanned, Child.unspannedAll children, closingName, default⟩

/-- A child without the spans of its markup. -/
def Child.unspanned : Child ε → Child ε
  | .element element => .element element.unspanned
  | .text text => .text { text with span := default }
  | .hole hole => .hole { hole with span := default }
  | .comment comment => .comment { comment with span := default }

/-- Children without the spans of their markup. -/
def Child.unspannedAll : List (Child ε) → List (Child ε)
  | [] => []
  | child :: children => child.unspanned :: Child.unspannedAll children

end

/-- A form without the spans of what it is written with. -/
def ExpressionForm.unspanned : ExpressionForm ε → ExpressionForm ε
  | .array items => .array (items.map ArrayItem.unspanned)
  | .methodCall object name arguments nullsafe =>
      .methodCall object name (arguments.map Argument.unspanned) nullsafe
  | .staticCall owner name arguments =>
      .staticCall owner name (arguments.map Argument.unspanned)
  | .call callee arguments => .call callee (arguments.map Argument.unspanned)
  | .arrowFunction parameters body => .arrowFunction (parameters.map Parameter.unspanned) body
  | .markup element => .markup element.unspanned
  | form => form

theorem Child.unspannedAll_eq (children : List (Child ε)) :
    Child.unspannedAll children = children.map Child.unspanned := by
  induction children with
  | nil => rfl
  | cons child children ih => rw [Child.unspannedAll, List.map_cons, ih]

theorem Child.mapAll_eq {δ : Type} (f : ε → δ) (children : List (Child ε)) :
    Child.mapAll f children = children.map (Child.map f) := by
  induction children with
  | nil => rfl
  | cons child children ih => rw [Child.mapAll, List.map_cons, ih]

end Layers

/-- An expression without any spans. -/
def Expression.withoutSpans (expression : Expression) : Expression :=
  expression.fold fun form _ => ⟨form.unspanned, default⟩

/-- An item without any spans. -/
def ArrayItem.withoutSpans (item : ArrayItem Expression) : ArrayItem Expression :=
  (item.map Expression.withoutSpans).unspanned

/-- An argument without any spans. -/
def Argument.withoutSpans (argument : Argument Expression) : Argument Expression :=
  (argument.map Expression.withoutSpans).unspanned

/-- An entry of a header without any spans. -/
def AttributeItem.withoutSpans (item : AttributeItem Expression) : AttributeItem Expression :=
  (item.map Expression.withoutSpans).unspanned

/-- An element without any spans. -/
def Element.withoutSpans (element : Element Expression) : Element Expression :=
  (element.map Expression.withoutSpans).unspanned

/-- A child without any spans. -/
def Child.withoutSpans (child : Child Expression) : Child Expression :=
  (child.map Expression.withoutSpans).unspanned

/-- A form without any spans. -/
def ExpressionForm.withoutSpans (form : ExpressionForm Expression) : ExpressionForm Expression :=
  (form.map Expression.withoutSpans).unspanned

/-- Spans are taken from an expression by taking them from its form. -/
@[simp] theorem Expression.withoutSpans_mk (form : ExpressionForm Expression) (span : Span) :
    Expression.withoutSpans ⟨form, span⟩ = ⟨form.withoutSpans, default⟩ := by
  rw [withoutSpans, fold_mk]
  rfl

@[simp] theorem Element.withoutSpans_mk
    (name : String)
    (items : List (AttributeItem Expression))
    (children : List (Child Expression))
    (closingName : Option String)
    (span : Span) :
    Element.withoutSpans ⟨name, items, children, closingName, span⟩ =
      ⟨name, items.map AttributeItem.withoutSpans, children.map Child.withoutSpans, closingName,
        default⟩ := by
  simp only [withoutSpans, Element.map, unspanned, Child.mapAll_eq, Child.unspannedAll_eq,
    List.map_map]
  rfl

@[simp] theorem Element.attributes_withoutSpans (element : Element Expression) :
    element.withoutSpans.attributes = element.attributes.map AttributeItem.withoutSpans := by
  cases element
  simp

@[simp] theorem Element.children_withoutSpans (element : Element Expression) :
    element.withoutSpans.children = element.children.map Child.withoutSpans := by
  cases element
  simp

@[simp] theorem Child.withoutSpans_element (element : Element Expression) :
    (Child.element element).withoutSpans = .element element.withoutSpans := by
  simp [withoutSpans, Child.map, unspanned, Element.withoutSpans]

@[simp] theorem Child.withoutSpans_text (text : LiteralText) :
    (Child.text text).withoutSpans = .text { text with span := default } := by
  simp [withoutSpans, Child.map, unspanned]

@[simp] theorem Child.withoutSpans_hole (hole : Hole Expression) :
    (Child.hole hole).withoutSpans = .hole ⟨hole.expression.withoutSpans, default⟩ := by
  simp [withoutSpans, Child.map, unspanned]

@[simp] theorem Child.withoutSpans_comment (comment : Comment) :
    (Child.comment comment).withoutSpans = .comment { comment with span := default } := by
  simp [withoutSpans, Child.map, unspanned]

@[simp] theorem AttributeItem.withoutSpans_named (item : Attribute Expression) :
    (AttributeItem.named item).withoutSpans =
      .named ⟨item.name, item.value.withoutSpans, default⟩ := rfl

@[simp] theorem AttributeItem.withoutSpans_spread (expression : Expression) (span : Span) :
    (AttributeItem.spread ⟨expression, span⟩).withoutSpans =
      .spread ⟨expression.withoutSpans, default⟩ := rfl

namespace ExpressionForm

variable {left right inner : Expression}

@[simp] theorem withoutSpans_variable (name : String) :
    (ExpressionForm.variable name).withoutSpans = .variable name := rfl

@[simp] theorem withoutSpans_constant (name : String) :
    (constant name).withoutSpans = .constant name := rfl

@[simp] theorem withoutSpans_bareName (name : String) :
    (bareName name).withoutSpans = .bareName name := rfl

@[simp] theorem withoutSpans_string (value : String) :
    (string value).withoutSpans = .string value := rfl

@[simp] theorem withoutSpans_int (value : Int) : (int value).withoutSpans = .int value := rfl

@[simp] theorem withoutSpans_float (value : Double) :
    (float value).withoutSpans = .float value := rfl

@[simp] theorem withoutSpans_array (items : List (ArrayItem Expression)) :
    (array items).withoutSpans = .array (items.map ArrayItem.withoutSpans) := by
  simp [withoutSpans, map, unspanned, ArrayItem.withoutSpans]

@[simp] theorem withoutSpans_property (object : Expression) (name : String) (nullsafe : Bool) :
    (property object name nullsafe).withoutSpans =
      .property object.withoutSpans name nullsafe := rfl

@[simp] theorem withoutSpans_methodCall
    (object : Expression)
    (name : String)
    (arguments : List (Argument Expression))
    (nullsafe : Bool) :
    (methodCall object name arguments nullsafe).withoutSpans =
      .methodCall object.withoutSpans name (arguments.map Argument.withoutSpans) nullsafe := by
  simp [withoutSpans, map, unspanned, Argument.withoutSpans]

@[simp] theorem withoutSpans_staticCall
    (owner : Expression)
    (name : String)
    (arguments : List (Argument Expression)) :
    (staticCall owner name arguments).withoutSpans =
      .staticCall owner.withoutSpans name (arguments.map Argument.withoutSpans) := by
  simp [withoutSpans, map, unspanned, Argument.withoutSpans]

@[simp] theorem withoutSpans_classConstant (owner : Expression) (name : String) :
    (classConstant owner name).withoutSpans = .classConstant owner.withoutSpans name := rfl

@[simp] theorem withoutSpans_call (callee : Expression) (arguments : List (Argument Expression)) :
    (call callee arguments).withoutSpans =
      .call callee.withoutSpans (arguments.map Argument.withoutSpans) := by
  simp [withoutSpans, map, unspanned, Argument.withoutSpans]

@[simp] theorem withoutSpans_entry (collection : Expression) (index : Option Expression) :
    (entry collection index).withoutSpans =
      .entry collection.withoutSpans (index.map Expression.withoutSpans) := rfl

@[simp] theorem withoutSpans_binary (operator : BinaryOperator) :
    (binary operator left right).withoutSpans =
      .binary operator left.withoutSpans right.withoutSpans := rfl

@[simp] theorem withoutSpans_not : (not inner).withoutSpans = .not inner.withoutSpans := rfl

@[simp] theorem withoutSpans_negate :
    (negate inner).withoutSpans = .negate inner.withoutSpans := rfl

@[simp] theorem withoutSpans_ternary (ifTrue : Option Expression) :
    (ternary left ifTrue right).withoutSpans =
      .ternary left.withoutSpans (ifTrue.map Expression.withoutSpans) right.withoutSpans := rfl

@[simp] theorem withoutSpans_assign :
    (assign left right).withoutSpans = .assign left.withoutSpans right.withoutSpans := rfl

@[simp] theorem withoutSpans_arrowFunction (parameters : List Parameter) :
    (arrowFunction parameters inner).withoutSpans =
      .arrowFunction (parameters.map Parameter.unspanned) inner.withoutSpans := rfl

@[simp] theorem withoutSpans_markup (element : Element Expression) :
    (markup element).withoutSpans = .markup element.withoutSpans := rfl

end ExpressionForm

namespace Expression

variable (expression : Expression)

@[simp] theorem isAssignable_withoutSpans :
    expression.withoutSpans.isAssignable = expression.isAssignable := by
  obtain ⟨form, span⟩ := expression
  cases form <;> simp [isAssignable]

@[simp] theorem isCallable_withoutSpans :
    expression.withoutSpans.isCallable = expression.isCallable := by
  obtain ⟨form, span⟩ := expression
  cases form <;> simp [isCallable]

@[simp] theorem isName_withoutSpans : expression.withoutSpans.isName = expression.isName := by
  obtain ⟨form, span⟩ := expression
  cases form <;> simp [isName]

@[simp] theorem withoutSpans_nameAsConstant :
    expression.nameAsConstant.withoutSpans = expression.withoutSpans.nameAsConstant := by
  obtain ⟨form, span⟩ := expression
  cases form <;> simp [nameAsConstant]

/-- Only bare names become constants. -/
theorem nameAsConstant_of_isName_eq_false
    {expression : Expression}
    (proper : expression.isName = false) :
    expression.nameAsConstant = expression := by
  obtain ⟨form, span⟩ := expression
  cases form <;> first | rfl | cases proper

@[simp] theorem isName_nameAsConstant : expression.nameAsConstant.isName = false := by
  obtain ⟨form, span⟩ := expression
  cases form <;> rfl

variable {expression}

/-- What is a string without its span is a string. -/
theorem exists_of_withoutSpans_eq_string
    {value : String}
    {span : Span}
    (same : expression.withoutSpans = ⟨.string value, span⟩) :
    ∃ place, expression = ⟨.string value, place⟩ := by
  obtain ⟨form, place⟩ := expression
  rw [withoutSpans_mk, Expression.mk.injEq] at same
  cases form with
  | string text => exact ⟨place, congrArg (Expression.mk · place) same.1⟩
  | _ => simp at same

/-- What is an array literal without its spans is one. -/
theorem exists_of_withoutSpans_eq_array
    {items : List (ArrayItem Expression)}
    {span : Span}
    (same : expression.withoutSpans = ⟨.array items, span⟩) :
    ∃ read place, expression = ⟨.array read, place⟩ ∧ read.map ArrayItem.withoutSpans = items := by
  obtain ⟨form, place⟩ := expression
  rw [withoutSpans_mk, Expression.mk.injEq] at same
  cases form with
  | array read =>
      rw [ExpressionForm.withoutSpans_array, ExpressionForm.array.injEq] at same
      exact ⟨read, place, rfl, same.1⟩
  | _ => simp at same

end Expression

end EmbeddedMarkup
