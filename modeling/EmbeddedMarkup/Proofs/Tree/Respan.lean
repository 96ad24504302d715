import EmbeddedMarkup.Proofs.Tree.Spans

/-!
# Trees with other spans

Where a tree stands in a source shows in its spans alone.  So a copy of a tree that stands somewhere
else is the tree with every span changed by one function, and what a tree is besides its spans is
not touched by that.
-/

namespace EmbeddedMarkup

section Layers

variable {ε : Type} (f : Span → Span)

/-- An item with its own span changed. -/
def ArrayItem.respanned (item : ArrayItem ε) : ArrayItem ε :=
  { item with span := f item.span }

/-- An argument with its own span changed. -/
def Argument.respanned (argument : Argument ε) : Argument ε :=
  { argument with span := f argument.span }

/-- A parameter with its span changed. -/
def Parameter.respan (parameter : Parameter) : Parameter :=
  { parameter with span := f parameter.span }

/-- A literal text with its span changed. -/
def LiteralText.respan (text : LiteralText) : LiteralText :=
  { text with span := f text.span }

/-- A comment with its span changed. -/
def Comment.respan (comment : Comment) : Comment :=
  { comment with span := f comment.span }

/-- An entry of a header with its own span changed. -/
def AttributeItem.respanned : AttributeItem ε → AttributeItem ε
  | .named item => .named { item with span := f item.span }
  | .spread item => .spread { item with span := f item.span }

mutual

/-- An element with the spans of its markup changed. -/
def Element.respanned : Element ε → Element ε
  | ⟨name, items, children, closingName, span⟩ =>
      ⟨name, items.map (·.respanned f), Child.respannedAll children, closingName, f span⟩

/-- A child with the spans of its markup changed. -/
def Child.respanned : Child ε → Child ε
  | .element element => .element element.respanned
  | .text text => .text (text.respan f)
  | .hole hole => .hole { hole with span := f hole.span }
  | .comment comment => .comment (comment.respan f)

/-- Children with the spans of their markup changed. -/
def Child.respannedAll : List (Child ε) → List (Child ε)
  | [] => []
  | child :: children => child.respanned :: Child.respannedAll children

end

/-- A form with the spans of what it is written with changed. -/
def ExpressionForm.respanned : ExpressionForm ε → ExpressionForm ε
  | .array items => .array (items.map (·.respanned f))
  | .methodCall object name arguments nullsafe =>
      .methodCall object name (arguments.map (·.respanned f)) nullsafe
  | .staticCall owner name arguments =>
      .staticCall owner name (arguments.map (·.respanned f))
  | .call callee arguments => .call callee (arguments.map (·.respanned f))
  | .arrowFunction parameters body => .arrowFunction (parameters.map (·.respan f)) body
  | .markup element => .markup (element.respanned f)
  | form => form

theorem Child.respannedAll_eq (children : List (Child ε)) :
    Child.respannedAll f children = children.map (Child.respanned f) := by
  induction children with
  | nil => rfl
  | cons child children ih => rw [Child.respannedAll, List.map_cons, ih]

end Layers

variable (f : Span → Span)

/-- An expression with all its spans changed. -/
def Expression.respan (expression : Expression) : Expression :=
  expression.fold fun form span => ⟨form.respanned f, f span⟩

/-- An item with all its spans changed. -/
def ArrayItem.respan (item : ArrayItem Expression) : ArrayItem Expression :=
  (item.map (Expression.respan f)).respanned f

/-- An argument with all its spans changed. -/
def Argument.respan (argument : Argument Expression) : Argument Expression :=
  (argument.map (Expression.respan f)).respanned f

/-- An entry of a header with all its spans changed. -/
def AttributeItem.respan (item : AttributeItem Expression) : AttributeItem Expression :=
  (item.map (Expression.respan f)).respanned f

/-- An element with all its spans changed. -/
def Element.respan (element : Element Expression) : Element Expression :=
  (element.map (Expression.respan f)).respanned f

/-- A child with all its spans changed. -/
def Child.respan (child : Child Expression) : Child Expression :=
  (child.map (Expression.respan f)).respanned f

/-- A form with all its spans changed. -/
def ExpressionForm.respan (form : ExpressionForm Expression) : ExpressionForm Expression :=
  (form.map (Expression.respan f)).respanned f

/-- The spans of an expression are its own and those of its form. -/
theorem Expression.respan_mk (form : ExpressionForm Expression) (span : Span) :
    Expression.respan f ⟨form, span⟩ = ⟨form.respan f, f span⟩ := by
  rw [respan, fold_mk]
  rfl

theorem Element.respan_mk
    (name : String)
    (items : List (AttributeItem Expression))
    (children : List (Child Expression))
    (closingName : Option String)
    (span : Span) :
    Element.respan f ⟨name, items, children, closingName, span⟩ =
      ⟨name, items.map (·.respan f), children.map (·.respan f), closingName, f span⟩ := by
  simp only [respan, Element.map, respanned, Child.mapAll_eq, Child.respannedAll_eq, List.map_map]
  rfl

theorem Child.respan_element (element : Element Expression) :
    (Child.element element).respan f = .element (element.respan f) := by
  simp [respan, Child.map, respanned, Element.respan]

theorem Child.respan_text (text : LiteralText) :
    (Child.text text).respan f = .text (text.respan f) := by
  simp [respan, Child.map, respanned]

theorem Child.respan_hole (expression : Expression) (span : Span) :
    (Child.hole ⟨expression, span⟩).respan f = .hole ⟨expression.respan f, f span⟩ := by
  simp [respan, Child.map, respanned]

theorem Child.respan_comment (comment : Comment) :
    (Child.comment comment).respan f = .comment (comment.respan f) := by
  simp [respan, Child.map, respanned]

theorem AttributeItem.respan_spread (expression : Expression) (span : Span) :
    (AttributeItem.spread ⟨expression, span⟩).respan f =
      .spread ⟨expression.respan f, f span⟩ := rfl

theorem ArrayItem.respan_mk
    (key : Option Expression)
    (value : Expression)
    (unpack : Bool)
    (span : Span) :
    ArrayItem.respan f ⟨key, value, unpack, span⟩ =
      ⟨key.map (Expression.respan f), value.respan f, unpack, f span⟩ := rfl

namespace ExpressionForm

theorem respan_array (items : List (ArrayItem Expression)) :
    (array items).respan f = .array (items.map (·.respan f)) := by
  simp [respan, map, respanned, ArrayItem.respan]

theorem respan_methodCall
    (object : Expression)
    (name : String)
    (arguments : List (Argument Expression))
    (nullsafe : Bool) :
    (methodCall object name arguments nullsafe).respan f =
      .methodCall (object.respan f) name (arguments.map (·.respan f)) nullsafe := by
  simp [respan, map, respanned, Argument.respan]

theorem respan_staticCall
    (owner : Expression)
    (name : String)
    (arguments : List (Argument Expression)) :
    (staticCall owner name arguments).respan f =
      .staticCall (owner.respan f) name (arguments.map (·.respan f)) := by
  simp [respan, map, respanned, Argument.respan]

theorem respan_call (callee : Expression) (arguments : List (Argument Expression)) :
    (call callee arguments).respan f = .call (callee.respan f) (arguments.map (·.respan f)) := by
  simp [respan, map, respanned, Argument.respan]

theorem respan_memberForm
    (object : Expression)
    (nullsafe : Bool)
    (name : String)
    (arguments : Option (List (Argument Expression))) :
    (memberForm object nullsafe (name, arguments)).respan f =
      memberForm (object.respan f) nullsafe (name, arguments.map (·.map (·.respan f))) := by
  cases arguments with
  | none => rfl
  | some arguments => exact respan_methodCall f object name arguments nullsafe

theorem respan_staticMemberForm
    (owner : Expression)
    (name : String)
    (arguments : Option (List (Argument Expression))) :
    (staticMemberForm owner (name, arguments)).respan f =
      staticMemberForm (owner.respan f) (name, arguments.map (·.map (·.respan f))) := by
  cases arguments with
  | none => rfl
  | some arguments => exact respan_staticCall f owner name arguments

end ExpressionForm

namespace Expression

variable (expression : Expression)

theorem isAssignable_respan : (expression.respan f).isAssignable = expression.isAssignable := by
  obtain ⟨form, span⟩ := expression
  rw [respan_mk]
  cases form <;> rfl

theorem isCallable_respan : (expression.respan f).isCallable = expression.isCallable := by
  obtain ⟨form, span⟩ := expression
  rw [respan_mk]
  cases form <;> rfl

theorem isName_respan : (expression.respan f).isName = expression.isName := by
  obtain ⟨form, span⟩ := expression
  rw [respan_mk]
  cases form <;> rfl

theorem respan_nameAsConstant :
    expression.nameAsConstant.respan f = (expression.respan f).nameAsConstant := by
  obtain ⟨form, span⟩ := expression
  rw [respan_mk]
  cases form <;> exact respan_mk f _ _

end Expression

end EmbeddedMarkup
