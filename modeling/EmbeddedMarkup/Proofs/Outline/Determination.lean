import EmbeddedMarkup.Proofs.Outline.Trees
import EmbeddedMarkup.Proofs.Tree.NullElements
import Mathlib.Data.Set.Function

/-!
# Outlines determine trees

An outline tells the tree that it was made of, apart from spans and from how elements `null` are
closed.  One layer is told at a time: two layers with the same outline are equal around the outlines
of their parts, so that what the parts are is a function of these outlines, and the layers are equal
around the parts too.

An element named `null` is told only because it has no content when it ends with its opening tag,
and because any other closing tag repeats the name.  Both are rules of markup.
-/

namespace EmbeddedMarkup

instance : Nonempty Expression :=
  ⟨HostConstants.nullAt default⟩

instance : Nonempty Double :=
  ⟨.zero⟩

/-- The number is the value of a literal in the expression. -/
def Expression.HasFloat (expression : Expression) (value : Double) : Prop :=
  ∃ span, expression.Contains ⟨.float value, span⟩

/-- The number is the value of a literal in the element. -/
def Element.HasFloat (element : Element Expression) (value : Double) : Prop :=
  ∃ part ∈ element.expressions, part.HasFloat value

/-- The number is the value of a literal in the document. -/
def Document.HasFloat (document : Document) (value : Double) : Prop :=
  ∃ element ∈ document.elements, element.HasFloat value

/-- The elements in the expression keep the rules of markup, and `number` reads its numbers. -/
structure Expression.IsTellable (number : String → Double) (expression : Expression) : Prop where
  formed : expression.All Element.IsWellFormed
  numbers : ∀ value, expression.HasFloat value → number value.plainText = value

/-- The elements in the element keep the rules of markup, and `number` reads its numbers. -/
structure Element.IsTellable
    (number : String → Double)
    (element : Element Expression) : Prop where
  formed : element.All IsWellFormed
  numbers : ∀ value, element.HasFloat value → number value.plainText = value

section Tellable

variable {number : String → Double} {part : Expression}

theorem Expression.IsTellable.of_mem
    {expression : Expression}
    (tellable : expression.IsTellable number)
    (member : part ∈ expression.form.expressions) :
    part.IsTellable number where
  formed := All.of_mem_expressions tellable.formed member
  numbers value := fun ⟨place, inside⟩ => tellable.numbers value ⟨place, .part member inside⟩

theorem Element.IsTellable.of_mem
    {element : Element Expression}
    (tellable : element.IsTellable number)
    (member : part ∈ element.expressions) :
    part.IsTellable number where
  formed inner included :=
    tellable.formed inner (includes_of_mem_expressions element member included)
  numbers value has := tellable.numbers value ⟨part, member, has⟩

end Tellable

namespace Outline

section Elements

/-- Where a function tells what another one gives, the images under the one tell those under the
other. -/
theorem map_eq_of_map_eq
    {α β γ : Type}
    {f : α → β}
    {g : α → γ}
    {xs ys : List α}
    (told : ∀ x ∈ xs, ∀ y ∈ ys, f x = f y → g x = g y)
    (same : xs.map f = ys.map f) :
    xs.map g = ys.map g := by
  induction xs generalizing ys with
  | nil =>
      cases ys with
      | nil => rfl
      | cons y ys => cases same
  | cons x xs ih =>
      cases ys with
      | nil => cases same
      | cons y ys =>
          obtain ⟨first, behind⟩ := List.cons.inj same
          have here := told x List.mem_cons_self y List.mem_cons_self first
          have others := ih (fun x member y member' =>
            told x (List.mem_cons_of_mem _ member) y (List.mem_cons_of_mem _ member')) behind
          exact congrArg₂ List.cons here others

/-- Entries of a header with the same outline are equal up to their spans. -/
theorem unspanned_eq_of_attributeItem_eq
    {entry entry' : AttributeItem Outline}
    (same : attributeItem false entry = attributeItem false entry') :
    entry.unspanned = entry'.unspanned := by
  cases entry <;> cases entry' <;>
    simp_all [attributeItem, AttributeItem.unspanned]

variable {h : Expression → Outline}

/-- A closing name is told by its text, but for the name `null`. -/
theorem closingName_eq
    {name : String}
    {closing closing' : Option String}
    (rule : closing = none ∨ closing = some name)
    (rule' : closing' = none ∨ closing' = some name)
    (same : closing.getD "null" = closing'.getD "null") :
    (if closing = none ∧ name = "null" then some name else closing) =
      if closing' = none ∧ name = "null" then some name else closing' := by
  rcases rule with rfl | rfl <;> rcases rule' with rfl | rfl
  · rfl
  · have null : name = "null" := same.symm
    simp [null]
  · have null : name = "null" := same
    simp [null]
  · rfl

theorem title_element (element : Element Outline) :
    (Outline.element false element).title = "JSX_Element" := by
  cases element
  simp [Outline.element, title]

/-- Only elements have the outlines of elements. -/
theorem child_ne_element
    {child : Child Outline}
    {element : Element Outline}
    (plain : ∀ inner, child ≠ .element inner) :
    Outline.child false child ≠ Outline.element false element := by
  intro same
  have titles := (congrArg title same).trans (title_element element)
  cases child with
  | element inner => exact plain inner rfl
  | _ => simp [Outline.child, title] at titles

mutual

/-- Elements with the same outline are equal up to spans and closing tags of elements `null`. -/
theorem shown_eq_of_element_eq : (element element' : Element Expression) →
    element.All Element.IsWellFormed → element'.All Element.IsWellFormed →
    Outline.element false (element.map h) = Outline.element false (element'.map h) →
      (element.map h).nullClosed.unspanned = (element'.map h).nullClosed.unspanned
  | ⟨name, items, children, closing, span⟩, ⟨name', items', children', closing', span'⟩,
      formed, formed', same => by
      simp only [Element.map, Outline.element, node_false, Outline.block.injEq, List.cons.injEq,
        Prod.mk.injEq, Outline.text.injEq, and_true, true_and] at same
      obtain ⟨rfl, sameItems, sameChildren, sameClosing⟩ := same
      have items_eq : (items.map (·.map h)).map AttributeItem.unspanned =
          (items'.map (·.map h)).map AttributeItem.unspanned :=
        map_eq_of_map_eq (fun _ _ _ _ => unspanned_eq_of_attributeItem_eq) (list_inj sameItems)
      have children_eq := shown_eq_of_childOutlines_eq children children'
        (fun child member inner included => formed inner (.child member included))
        (fun child member inner included => formed' inner (.child member included))
        (list_inj sameChildren)
      have closing_eq := closingName_eq ((formed _ .self).closing.imp_left And.left)
        ((formed' _ .self).closing.imp_left And.left) sameClosing
      simp only [Element.map, Element.nullClosed, Element.unspanned, items_eq, children_eq,
        closing_eq]

/-- Children with the same outline are equal up to spans and closing tags of elements `null`. -/
theorem shown_eq_of_child_eq : (child child' : Child Expression) →
    child.All Element.IsWellFormed → child'.All Element.IsWellFormed →
    Outline.child false (child.map h) = Outline.child false (child'.map h) →
      (child.map h).nullClosed.unspanned = (child'.map h).nullClosed.unspanned
  | .element element, child', formed, formed', same => by
      cases child' with
      | element element' =>
          exact congrArg Child.element (shown_eq_of_element_eq element element'
            (fun inner included => formed inner (.element included))
            (fun inner included => formed' inner (.element included)) same)
      | _ => exact absurd same.symm (child_ne_element nofun)
  | .text run, child', _, _, same => by
      cases child' with
      | text run' =>
          simp_all [Child.map, Outline.child, Child.nullClosed, Child.unspanned]
      | element element' => exact absurd same (child_ne_element nofun)
      | _ => simp [Child.map, Outline.child] at same
  | .hole hole, child', _, _, same => by
      cases child' with
      | hole hole' =>
          simp_all [Child.map, Outline.child, Child.nullClosed, Child.unspanned]
      | element element' => exact absurd same (child_ne_element nofun)
      | _ => simp [Child.map, Outline.child] at same
  | .comment comment, child', _, _, same => by
      cases child' with
      | comment comment' =>
          simp_all [Child.map, Outline.child, Child.nullClosed, Child.unspanned]
      | element element' => exact absurd same (child_ne_element nofun)
      | _ => simp [Child.map, Outline.child] at same

theorem shown_eq_of_childOutlines_eq : (children children' : List (Child Expression)) →
    (∀ child ∈ children, child.All Element.IsWellFormed) →
    (∀ child ∈ children', child.All Element.IsWellFormed) →
    childOutlines false (Child.mapAll h children) =
      childOutlines false (Child.mapAll h children') →
      Child.unspannedAll (Child.nullClosedAll (Child.mapAll h children)) =
        Child.unspannedAll (Child.nullClosedAll (Child.mapAll h children'))
  | [], [], _, _, _ => rfl
  | [], _ :: _, _, _, same => nomatch same
  | _ :: _, [], _, _, same => nomatch same
  | child :: children, child' :: children', formed, formed', same => by
      obtain ⟨formedFirst, formed⟩ := List.forall_mem_cons.mp formed
      obtain ⟨formedFirst', formed'⟩ := List.forall_mem_cons.mp formed'
      obtain ⟨first, behind⟩ := List.cons.inj same
      exact congrArg₂ List.cons (shown_eq_of_child_eq child child' formedFirst formedFirst' first)
        (shown_eq_of_childOutlines_eq children children' formed formed' behind)

end

end Elements

/-! ## Forms -/

theorem isBlock_element (element : Element Outline) :
    (Outline.element false element).IsBlock := by
  cases element
  rfl

theorem isBlock_form (shown : ExpressionForm Outline) (span : Span) :
    (form false shown span).IsBlock := by
  cases shown with
  | markup element => exact isBlock_element element
  | property object name nullsafe => cases nullsafe <;> rfl
  | methodCall object name entries nullsafe => cases nullsafe <;> rfl
  | _ => rfl

theorem ofExpression_mk (shape : ExpressionForm Expression) (span : Span) :
    ofExpression false ⟨shape, span⟩ = form false (shape.map (ofExpression false)) span :=
  Expression.fold_mk _ shape span

theorem isBlock_ofExpression (expression : Expression) :
    (ofExpression false expression).IsBlock := by
  obtain ⟨shape, span⟩ := expression
  rw [ofExpression_mk]
  exact isBlock_form _ span

/-- Only markup has the title of an element. -/
theorem title_form_ne
    {shape : ExpressionForm Outline}
    (span : Span)
    (unmarked : ∀ element, shape ≠ .markup element) :
    (form false shape span).title ≠ "JSX_Element" := by
  cases shape with
  | markup element => exact absurd rfl (unmarked element)
  | property object name nullsafe => cases nullsafe <;> simp [form, title]
  | methodCall object name entries nullsafe => cases nullsafe <;> simp [form, title]
  | binary operator left right => cases operator <;> simp [form, title, BinaryOperator.label]
  | _ => simp [form, title]

/-- What is a number after its parts were changed is a number. -/
theorem eq_float_of_map_eq
    {ε δ : Type}
    {f : ε → δ}
    {shape : ExpressionForm ε}
    {value : Double}
    (same : shape.map f = .float value) :
    shape = .float value := by
  cases shape <;> cases same
  rfl

/-- What is markup after its parts were changed is markup. -/
theorem exists_of_map_eq_markup
    {ε δ : Type}
    {f : ε → δ}
    {shape : ExpressionForm ε}
    {element : Element δ}
    (same : shape.map f = .markup element) :
    ∃ inner, shape = .markup inner := by
  cases shape with
  | markup inner => exact ⟨inner, rfl⟩
  | _ => cases same

theorem nullClosed_of_unmarked
    {ε : Type}
    {shape : ExpressionForm ε}
    (unmarked : ∀ element, shape ≠ .markup element) :
    shape.nullClosed = shape := by
  cases shape with
  | markup element => exact absurd rfl (unmarked element)
  | _ => rfl

/-! ## What an outline does not show -/

section Hidden

theorem attributeItem_unspanned (entry : AttributeItem Outline) :
    attributeItem false entry.unspanned = attributeItem false entry := by
  cases entry <;> rfl

/-- A closing name that is written for an element `null` shows like one that is absent. -/
theorem getD_closingName (name : String) (closing : Option String) :
    (if closing = none ∧ name = "null" then some name else closing).getD "null" =
      closing.getD "null" := by
  split
  · rename_i null
    simp [null]
  · rfl

mutual

/-- Neither spans nor the closing tags of elements `null` show in the outline of an element. -/
theorem element_nullClosed_unspanned : (element : Element Outline) →
    Outline.element false element.nullClosed.unspanned = Outline.element false element
  | ⟨name, items, children, closing, span⟩ => by
      have items_eq : (items.map AttributeItem.unspanned).map (attributeItem false) =
          items.map (attributeItem false) := by
        rw [List.map_map]
        exact List.map_congr_left fun entry _ => attributeItem_unspanned entry
      simp only [Element.nullClosed, Element.unspanned, Outline.element, node_false, items_eq,
        childOutlines_nullClosed_unspanned children, getD_closingName]

theorem child_nullClosed_unspanned : (child : Child Outline) →
    Outline.child false child.nullClosed.unspanned = Outline.child false child
  | .element element => element_nullClosed_unspanned element
  | .text _ | .hole _ | .comment _ => rfl

theorem childOutlines_nullClosed_unspanned : (children : List (Child Outline)) →
    childOutlines false (Child.unspannedAll (Child.nullClosedAll children)) =
      childOutlines false children
  | [] => rfl
  | child :: children =>
      congrArg₂ List.cons (child_nullClosed_unspanned child)
        (childOutlines_nullClosed_unspanned children)

end

@[simp] theorem arrayItem_unspanned (item : ArrayItem Outline) :
    arrayItem false item.unspanned = arrayItem false item := rfl

@[simp] theorem argument_unspanned (entry : Argument Outline) :
    argument false entry.unspanned = argument false entry := rfl

@[simp] theorem parameter_unspanned (entry : Parameter) :
    parameter false entry.unspanned = parameter false entry := rfl

/-- Neither spans nor the closing tags of elements `null` show in the outline of a form. -/
theorem form_nullClosed_unspanned (shape : ExpressionForm Outline) (span span' : Span) :
    form false shape.nullClosed.unspanned span' = form false shape span := by
  cases shape with
  | markup element => exact element_nullClosed_unspanned element
  | _ =>
      simp [ExpressionForm.nullClosed, ExpressionForm.unspanned, form, arguments,
        Function.comp_def]

/-- Neither spans nor the closing tags of elements `null` show in the outline of an expression. -/
theorem ofExpression_shown (expression : Expression) :
    ofExpression false expression.shown = ofExpression false expression := by
  refine @Expression.induct (fun expression =>
    ofExpression false expression.shown = ofExpression false expression) ?_ expression
  intro shape span parts
  rw [Expression.shown_mk, ofExpression_mk, ofExpression_mk, ← ExpressionForm.unspanned_map,
    ← ExpressionForm.nullClosed_map, ExpressionForm.map_map_eq parts, form_nullClosed_unspanned]

/-- Neither spans nor the closing tags of elements `null` show in the outline of an element. -/
theorem ofElement_shown (element : Element Expression) :
    ofElement false element.shown = ofElement false element := by
  rw [ofElement, ofElement, Element.shown_eq, ← Element.unspanned_map, ← Element.nullClosed_map,
    Element.map_map_eq element fun part _ => ofExpression_shown part,
    element_nullClosed_unspanned]

end Hidden

/-! ## Trees with the same outline -/

section Determination

variable {number : String → Double}

/-- The outline of an expression that is no markup tells its form, around the outlines of its
parts. -/
theorem readForm_ofExpression
    {shape : ExpressionForm Expression}
    {span : Span}
    (tellable : Expression.IsTellable number ⟨shape, span⟩)
    (unmarked : ∀ element, shape ≠ .markup element) :
    readForm number (ofExpression false ⟨shape, span⟩) =
      (shape.map (ofExpression false)).nullClosed.unspanned := by
  have blocks : ∀ outline ∈ (shape.map (ofExpression false)).expressions, outline.IsBlock := by
    rw [ExpressionForm.expressions_map]
    exact List.forall_mem_map.mpr fun part _ => isBlock_ofExpression part
  have unmarked (element : Element Outline) : shape.map (ofExpression false) ≠ .markup element :=
    fun marked => (exists_of_map_eq_markup marked).elim fun inner marked => unmarked inner marked
  rw [ofExpression_mk, nullClosed_of_unmarked unmarked]
  refine readForm_form span blocks (fun value isFloat => ?_) unmarked
  obtain rfl := eq_float_of_map_eq isFloat
  exact tellable.numbers value ⟨span, .self⟩

/-- Only the outlines of markup have the title of an element. -/
theorem title_ofExpression_eq_iff {shape : ExpressionForm Expression} {span : Span} :
    (ofExpression false ⟨shape, span⟩).title = "JSX_Element" ↔
      ∃ element, shape = .markup element := by
  rw [ofExpression_mk]
  constructor
  · intro titled
    by_contra unmarked
    exact title_form_ne span
      (fun element marked => unmarked (exists_of_map_eq_markup marked)) titled
  · rintro ⟨element, rfl⟩
    exact title_element _

/-- Forms with the same outline are equal up to spans and closing tags of elements `null`, around
the outlines of their parts. -/
theorem shown_eq_of_form_eq
    {shape shape' : ExpressionForm Expression}
    {span span' : Span}
    (tellable : Expression.IsTellable number ⟨shape, span⟩)
    (tellable' : Expression.IsTellable number ⟨shape', span'⟩)
    (same : ofExpression false ⟨shape, span⟩ = ofExpression false ⟨shape', span'⟩) :
    (shape.map (ofExpression false)).nullClosed.unspanned =
      (shape'.map (ofExpression false)).nullClosed.unspanned := by
  have alike : (∃ element, shape = .markup element) ↔ ∃ element, shape' = .markup element := by
    rw [← @title_ofExpression_eq_iff shape span, same, title_ofExpression_eq_iff]
  by_cases marked : ∃ element, shape = .markup element
  · obtain ⟨element', rfl⟩ := alike.mp marked
    obtain ⟨element, rfl⟩ := marked
    rw [ofExpression_mk, ofExpression_mk] at same
    exact congrArg ExpressionForm.markup (shown_eq_of_element_eq element element'
      (fun inner included => tellable.formed inner (.markup included))
      (fun inner included => tellable'.formed inner (.markup included)) same)
  · have marked' := mt alike.mpr marked
    rw [← readForm_ofExpression tellable (not_exists.mp marked), same,
      readForm_ofExpression tellable' (not_exists.mp marked')]

/-- Where a function tells what another one gives, on two lists with the same images, the other one
is a function of what it gives. -/
theorem exists_of_map_eq
    {α β γ : Type}
    [Nonempty α]
    {f : α → β}
    {g : α → γ}
    {xs ys : List α}
    (told : ∀ x ∈ xs, ∀ y ∈ ys, f x = f y → g x = g y)
    (same : xs.map f = ys.map f) :
    ∃ k : β → γ, (∀ x ∈ xs, k (f x) = g x) ∧ ∀ y ∈ ys, k (f y) = g y := by
  let origin := Function.invFunOn f {x | x ∈ xs}
  have inside (y : α) (member : y ∈ ys) : g (origin (f y)) = g y := by
    obtain ⟨x, listed, image⟩ := List.mem_map.mp (same ▸ List.mem_map_of_mem member)
    have image : ∃ x ∈ {x | x ∈ xs}, f x = f y := ⟨x, listed, image⟩
    exact told _ (Function.invFunOn_mem image) y member (Function.invFunOn_eq image)
  refine ⟨g ∘ origin, fun x member => ?_, inside⟩
  obtain ⟨y, listed, image⟩ := List.mem_map.mp (same ▸ List.mem_map_of_mem (f := f) member)
  rw [Function.comp_apply, ← image, inside y listed]
  exact (told x member y listed image.symm).symm

/-- Expressions with the same outline are equal up to spans and closing tags of elements `null`. -/
theorem shown_eq_of_ofExpression_eq {expression : Expression} : expression.IsTellable number →
    ∀ {expression' : Expression}, expression'.IsTellable number →
      ofExpression false expression = ofExpression false expression' →
        expression.shown = expression'.shown := by
  refine @Expression.induct (fun expression => expression.IsTellable number →
    ∀ {expression' : Expression}, expression'.IsTellable number →
      ofExpression false expression = ofExpression false expression' →
        expression.shown = expression'.shown) ?_ expression
  rintro shape span parts tellable ⟨shape', span'⟩ tellable' same
  have layer := shown_eq_of_form_eq tellable tellable' same
  have outlines := congrArg ExpressionForm.expressions layer
  simp only [ExpressionForm.expressions_unspanned, ExpressionForm.expressions_nullClosed,
    ExpressionForm.expressions_map] at outlines
  obtain ⟨read, first, second⟩ := exists_of_map_eq
    (fun part member part' member' =>
      parts part member (tellable.of_mem member) (tellable'.of_mem member')) outlines
  rw [Expression.shown_mk, Expression.shown_mk, ← ExpressionForm.map_map_eq first,
    ← ExpressionForm.map_map_eq second]
  simp only [ExpressionForm.nullClosed_map _ (ExpressionForm.map _ _),
    ExpressionForm.unspanned_map, layer]

/-- Elements with the same outline are equal up to spans and closing tags of elements `null`. -/
theorem shown_eq_of_ofElement_eq
    {element element' : Element Expression}
    (tellable : element.IsTellable number)
    (tellable' : element'.IsTellable number)
    (same : ofElement false element = ofElement false element') :
    element.shown = element'.shown := by
  have layer := shown_eq_of_element_eq element element' tellable.formed tellable'.formed same
  have outlines := congrArg Element.expressions layer
  simp only [Element.expressions_unspanned, Element.expressions_nullClosed,
    Element.expressions_map] at outlines
  obtain ⟨read, first, second⟩ := exists_of_map_eq
    (fun part member part' member' =>
      shown_eq_of_ofExpression_eq (tellable.of_mem member) (tellable'.of_mem member')) outlines
  rw [Element.shown_eq, Element.shown_eq, ← Element.map_map_eq element first,
    ← Element.map_map_eq element' second]
  simp only [Element.nullClosed_map _ (Element.map _ _), Element.unspanned_map, layer]

end Determination

end Outline

end EmbeddedMarkup
