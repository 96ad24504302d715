import EmbeddedMarkup.Proofs.Tree.Parts

/-!
# Elements named `null`

An outline writes `null` for a closing name that is absent.  So an element of this name that ends
with its opening tag looks like one that is closed and has no content.  Here every such element is
given its closing tag; that is all the difference that an outline does not show, apart from spans.
-/

namespace EmbeddedMarkup

section Layers

variable {ε δ : Type}

mutual

/-- An element in whose markup every element `null` has a closing tag. -/
def Element.nullClosed : Element ε → Element ε
  | ⟨name, items, children, closingName, span⟩ =>
      ⟨name, items, Child.nullClosedAll children,
        if closingName = none ∧ name = "null" then some name else closingName, span⟩

/-- A child in whose markup every element `null` has a closing tag. -/
def Child.nullClosed : Child ε → Child ε
  | .element element => .element element.nullClosed
  | child => child

/-- Children in whose markup every element `null` has a closing tag. -/
def Child.nullClosedAll : List (Child ε) → List (Child ε)
  | [] => []
  | child :: children => child.nullClosed :: Child.nullClosedAll children

end

/-- A form in whose markup every element `null` has a closing tag. -/
def ExpressionForm.nullClosed : ExpressionForm ε → ExpressionForm ε
  | .markup element => .markup element.nullClosed
  | form => form

/-! ## Changing parts -/

variable (f : ε → δ)

mutual

theorem Element.nullClosed_map : (element : Element ε) →
    (element.map f).nullClosed = element.nullClosed.map f
  | ⟨name, items, children, closingName, span⟩ => by
      rw [Element.map, Element.nullClosed, Element.nullClosed, Element.map,
        Child.nullClosedAll_mapAll children]

theorem Child.nullClosed_map : (child : Child ε) →
    (child.map f).nullClosed = child.nullClosed.map f
  | .element element => congrArg Child.element element.nullClosed_map
  | .hole _ | .text _ | .comment _ => rfl

theorem Child.nullClosedAll_mapAll : (children : List (Child ε)) →
    Child.nullClosedAll (Child.mapAll f children) = Child.mapAll f (Child.nullClosedAll children)
  | [] => rfl
  | child :: children => by
      rw [Child.mapAll, Child.nullClosedAll, Child.nullClosedAll, Child.mapAll,
        child.nullClosed_map, Child.nullClosedAll_mapAll children]

end

theorem ExpressionForm.nullClosed_map (form : ExpressionForm ε) :
    (form.map f).nullClosed = form.nullClosed.map f := by
  cases form with
  | markup element => exact congrArg ExpressionForm.markup (element.nullClosed_map f)
  | _ => rfl

theorem AttributeItem.unspanned_map (item : AttributeItem ε) :
    (item.map f).unspanned = item.unspanned.map f := by
  cases item <;> rfl

mutual

theorem Element.unspanned_map : (element : Element ε) →
    (element.map f).unspanned = element.unspanned.map f
  | ⟨name, items, children, closingName, span⟩ => by
      rw [Element.map, Element.unspanned, Element.unspanned, Element.map, List.map_map,
        List.map_map, Child.unspannedAll_mapAll children]
      congr 1
      exact List.map_congr_left fun item _ => item.unspanned_map f

theorem Child.unspanned_map : (child : Child ε) →
    (child.map f).unspanned = child.unspanned.map f
  | .element element => congrArg Child.element element.unspanned_map
  | .hole _ | .text _ | .comment _ => rfl

theorem Child.unspannedAll_mapAll : (children : List (Child ε)) →
    Child.unspannedAll (Child.mapAll f children) = Child.mapAll f (Child.unspannedAll children)
  | [] => rfl
  | child :: children => by
      rw [Child.mapAll, Child.unspannedAll, Child.unspannedAll, Child.mapAll,
        child.unspanned_map, Child.unspannedAll_mapAll children]

end

theorem ExpressionForm.unspanned_map (form : ExpressionForm ε) :
    (form.map f).unspanned = form.unspanned.map f := by
  cases form with
  | markup element => exact congrArg ExpressionForm.markup (element.unspanned_map f)
  | _ => simp [map, unspanned, ArrayItem.map, ArrayItem.unspanned, Argument.map,
      Argument.unspanned]

/-! ## Parts -/

mutual

theorem Element.expressions_nullClosed : (element : Element ε) →
    element.nullClosed.expressions = element.expressions
  | ⟨name, items, children, closingName, span⟩ => by
      rw [Element.nullClosed, Element.expressions, Element.expressions,
        Child.expressionsOfAll_nullClosed children]

theorem Child.expressions_nullClosed : (child : Child ε) →
    child.nullClosed.expressions = child.expressions
  | .element element => element.expressions_nullClosed
  | .hole _ | .text _ | .comment _ => rfl

theorem Child.expressionsOfAll_nullClosed : (children : List (Child ε)) →
    Child.expressionsOfAll (Child.nullClosedAll children) = Child.expressionsOfAll children
  | [] => rfl
  | child :: children => by
      rw [Child.nullClosedAll, Child.expressionsOfAll, Child.expressionsOfAll,
        child.expressions_nullClosed, Child.expressionsOfAll_nullClosed children]

end

theorem ExpressionForm.expressions_nullClosed (form : ExpressionForm ε) :
    form.nullClosed.expressions = form.expressions := by
  cases form with
  | markup element => exact element.expressions_nullClosed
  | _ => rfl

end Layers

/-! ## Whole trees -/

/-- An expression in which every element `null` has a closing tag. -/
def Expression.withNullsClosed (expression : Expression) : Expression :=
  expression.fold fun form span => ⟨form.nullClosed, span⟩

/-- An element in which every element `null` has a closing tag. -/
def Element.withNullsClosed (element : Element Expression) : Element Expression :=
  (element.map Expression.withNullsClosed).nullClosed

namespace Expression

/-- An expression without spans, in which every element `null` has a closing tag. -/
def shown (expression : Expression) : Expression :=
  expression.withNullsClosed.withoutSpans

theorem shown_mk (form : ExpressionForm Expression) (span : Span) :
    shown ⟨form, span⟩ = ⟨(form.map shown).nullClosed.unspanned, default⟩ := by
  rw [shown, withNullsClosed, fold_mk, withoutSpans_mk, ExpressionForm.withoutSpans,
    ← ExpressionForm.nullClosed_map, ExpressionForm.map_map_eq fun part _ => rfl]
  rfl

end Expression

/-- An element without spans, in which every element `null` has a closing tag. -/
def Element.shown (element : Element Expression) : Element Expression :=
  element.withNullsClosed.withoutSpans

theorem Element.shown_eq (element : Element Expression) :
    element.shown = (element.map Expression.shown).nullClosed.unspanned := by
  rw [shown, withNullsClosed, withoutSpans, ← nullClosed_map,
    Element.map_map_eq element fun part _ => rfl]
  rfl

end EmbeddedMarkup
