import EmbeddedMarkup.Proofs.Tree.Spans

/-!
# The outermost elements of an expression

An expression that is markup has its own element as its only outermost one.  Any other expression
has those of its parts, in the order in which they are written.
-/

namespace EmbeddedMarkup

mutual

/-- The elements in an expression that stand in no other element of it, in source order. -/
def Expression.outermost : Expression → List (Element Expression)
  | ⟨form, _⟩ => form.outermost

/-- The outermost elements of an expression of this form. -/
def ExpressionForm.outermost : ExpressionForm Expression → List (Element Expression)
  | .variable _ | .constant _ | .bareName _ | .string _ | .int _ | .float _ => []
  | .array items => outermostOfItems items
  | .property object _ _ => object.outermost
  | .methodCall object _ arguments _ => object.outermost ++ outermostOfArguments arguments
  | .staticCall owner _ arguments => owner.outermost ++ outermostOfArguments arguments
  | .classConstant owner _ => owner.outermost
  | .call callee arguments => callee.outermost ++ outermostOfArguments arguments
  | .entry collection index => collection.outermost ++ outermostOfOption index
  | .binary _ left right => left.outermost ++ right.outermost
  | .not operand => operand.outermost
  | .negate operand => operand.outermost
  | .ternary condition ifTrue ifFalse =>
      condition.outermost ++ (outermostOfOption ifTrue ++ ifFalse.outermost)
  | .assign target value => target.outermost ++ value.outermost
  | .arrowFunction _ body => body.outermost
  | .markup element => [element]

/-- The outermost elements of a part that may be absent. -/
def outermostOfOption : Option Expression → List (Element Expression)
  | none => []
  | some part => part.outermost

/-- The outermost elements of the items of an array literal. -/
def outermostOfItems : List (ArrayItem Expression) → List (Element Expression)
  | [] => []
  | ⟨key, value, _, _⟩ :: items =>
      outermostOfOption key ++ value.outermost ++ outermostOfItems items

/-- The outermost elements of the arguments of a call. -/
def outermostOfArguments : List (Argument Expression) → List (Element Expression)
  | [] => []
  | ⟨value, _, _⟩ :: arguments => value.outermost ++ outermostOfArguments arguments

end

/-- Items without keys have the outermost elements of the arguments that they become. -/
theorem outermostOfArguments_toArgument
    {items : List (ArrayItem Expression)}
    (keyless : ∀ item ∈ items, item.key = none) :
    outermostOfArguments (items.map ArrayItem.toArgument) = outermostOfItems items := by
  induction items with
  | nil => rfl
  | cons item items ih =>
      obtain ⟨here, behind⟩ := List.forall_mem_cons.mp keyless
      obtain ⟨key, value, unpack, span⟩ := item
      cases here
      rw [List.map_cons, ArrayItem.toArgument, outermostOfArguments, outermostOfItems, ih behind]
      rfl

theorem Expression.outermost_nameAsConstant (expression : Expression) :
    expression.nameAsConstant.outermost = expression.outermost := by
  obtain ⟨form, span⟩ := expression
  cases form <;> rfl

mutual

/-- Which elements are outermost does not depend on where an expression was read. -/
theorem Expression.outermost_withoutSpans : (expression : Expression) →
    expression.withoutSpans.outermost = expression.outermost.map Element.withoutSpans
  | ⟨form, span⟩ => by
      rw [Expression.withoutSpans_mk, Expression.outermost, Expression.outermost,
        ExpressionForm.outermost_withoutSpans form]

theorem ExpressionForm.outermost_withoutSpans : (form : ExpressionForm Expression) →
    form.withoutSpans.outermost = form.outermost.map Element.withoutSpans
  | .variable _ | .constant _ | .bareName _ | .string _ | .int _ | .float _ => rfl
  | .array items => by simp [ExpressionForm.outermost, outermostOfItems_withoutSpans items]
  | .property object _ _ => by simp [ExpressionForm.outermost, object.outermost_withoutSpans]
  | .methodCall object _ arguments _ => by
      simp [ExpressionForm.outermost, object.outermost_withoutSpans,
        outermostOfArguments_withoutSpans arguments]
  | .staticCall owner _ arguments => by
      simp [ExpressionForm.outermost, owner.outermost_withoutSpans,
        outermostOfArguments_withoutSpans arguments]
  | .classConstant owner _ => by simp [ExpressionForm.outermost, owner.outermost_withoutSpans]
  | .call callee arguments => by
      simp [ExpressionForm.outermost, callee.outermost_withoutSpans,
        outermostOfArguments_withoutSpans arguments]
  | .entry collection index => by
      simp [ExpressionForm.outermost, collection.outermost_withoutSpans,
        outermostOfOption_withoutSpans index]
  | .binary _ left right => by
      simp [ExpressionForm.outermost, left.outermost_withoutSpans, right.outermost_withoutSpans]
  | .not operand => by simp [ExpressionForm.outermost, operand.outermost_withoutSpans]
  | .negate operand => by simp [ExpressionForm.outermost, operand.outermost_withoutSpans]
  | .ternary condition ifTrue ifFalse => by
      simp [ExpressionForm.outermost, condition.outermost_withoutSpans,
        outermostOfOption_withoutSpans ifTrue, ifFalse.outermost_withoutSpans]
  | .assign target value => by
      simp [ExpressionForm.outermost, target.outermost_withoutSpans, value.outermost_withoutSpans]
  | .arrowFunction _ body => by simp [ExpressionForm.outermost, body.outermost_withoutSpans]
  | .markup element => rfl

theorem outermostOfOption_withoutSpans : (part : Option Expression) →
    outermostOfOption (part.map Expression.withoutSpans) =
      (outermostOfOption part).map Element.withoutSpans
  | none => rfl
  | some part => part.outermost_withoutSpans

theorem outermostOfItems_withoutSpans : (items : List (ArrayItem Expression)) →
    outermostOfItems (items.map ArrayItem.withoutSpans) =
      (outermostOfItems items).map Element.withoutSpans
  | [] => rfl
  | ⟨key, value, unpack, span⟩ :: items => by
      have here : ArrayItem.withoutSpans ⟨key, value, unpack, span⟩ =
        ⟨key.map Expression.withoutSpans, value.withoutSpans, unpack, default⟩ := rfl
      simp [here, outermostOfItems, outermostOfOption_withoutSpans key,
        value.outermost_withoutSpans, outermostOfItems_withoutSpans items]

theorem outermostOfArguments_withoutSpans : (arguments : List (Argument Expression)) →
    outermostOfArguments (arguments.map Argument.withoutSpans) =
      (outermostOfArguments arguments).map Element.withoutSpans
  | [] => rfl
  | ⟨value, unpack, span⟩ :: arguments => by
      have here : Argument.withoutSpans ⟨value, unpack, span⟩ =
        ⟨value.withoutSpans, unpack, default⟩ := rfl
      simp [here, outermostOfArguments, value.outermost_withoutSpans,
        outermostOfArguments_withoutSpans arguments]

end

end EmbeddedMarkup
