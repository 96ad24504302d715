import EmbeddedMarkup.Document
import EmbeddedMarkup.Proofs.Tree.Parts

/-!
# The height of a tree

The height of a tree is the number of nodes on the longest way down.  Elements, entries of headers,
holes, texts, comments and expressions are nodes.

Connectives and accesses stand behind an expression that was read before them and becomes the first
part of theirs.  Such a node may also be counted together with the one in front of it, so that a
chain of them, however long, is one node; what is counted then is the nesting of a tree.
-/

namespace EmbeddedMarkup

/-- The greatest of some numbers, or zero if there are none. -/
def greatest (numbers : List Nat) : Nat :=
  numbers.foldr max 0

@[simp] theorem greatest_le_iff {numbers : List Nat} {bound : Nat} :
    greatest numbers ≤ bound ↔ ∀ number ∈ numbers, number ≤ bound := by
  induction numbers with
  | nil => simp [greatest]
  | cons number numbers ih =>
      rw [greatest, List.foldr_cons, ← greatest, Nat.max_le, ih, List.forall_mem_cons]

section Layers

variable {ε δ : Type}

/-- The part of a form that stands in front of the connective or the access that made the form. -/
def ExpressionForm.front? : ExpressionForm ε → Option ε
  | .property object _ _ => some object
  | .methodCall object _ _ _ => some object
  | .staticCall owner _ _ => some owner
  | .classConstant owner _ => some owner
  | .call callee _ => some callee
  | .entry collection _ => some collection
  | .binary _ left _ => some left
  | .ternary condition _ _ => some condition
  | .assign target _ => some target
  | _ => none

/-- The parts of a form that were read for it. -/
def ExpressionForm.inner : ExpressionForm ε → List ε
  | .array items => items.flatMap ArrayItem.parts
  | .methodCall _ _ arguments _ => arguments.map Argument.value
  | .staticCall _ _ arguments => arguments.map Argument.value
  | .call _ arguments => arguments.map Argument.value
  | .entry _ index => index.toList
  | .binary _ _ right => [right]
  | .not operand => [operand]
  | .negate operand => [operand]
  | .ternary _ ifTrue ifFalse => ifTrue.toList ++ [ifFalse]
  | .assign _ value => [value]
  | .arrowFunction _ body => [body]
  | _ => []

/-- A form has no other parts. -/
theorem ExpressionForm.parts_eq (form : ExpressionForm ε) :
    form.parts = form.front?.toList ++ form.inner := by
  cases form <;> rfl

theorem ExpressionForm.IsMember.front?_eq
    {base : Expression}
    {arguments : Option (List (Argument Expression))}
    {form : ExpressionForm Expression}
    (member : IsMember base arguments form) :
    form.front? = some base := by
  cases member <;> cases arguments <;> rfl

theorem ExpressionForm.IsMember.inner_eq
    {base : Expression}
    {arguments : Option (List (Argument Expression))}
    {form : ExpressionForm Expression}
    (member : IsMember base arguments form) :
    form.inner = (arguments.getD []).map Argument.value := by
  cases member <;> cases arguments <;> rfl

theorem ExpressionForm.front?_map (f : ε → δ) (form : ExpressionForm ε) :
    (form.map f).front? = form.front?.map f := by
  cases form <;> rfl

theorem ExpressionForm.inner_map (f : ε → δ) (form : ExpressionForm ε) :
    (form.map f).inner = form.inner.map f := by
  cases form with
  | entry collection index => cases index <;> rfl
  | ternary condition ifTrue ifFalse => cases ifTrue <;> rfl
  | _ => simp [map, inner, List.flatMap_map, List.map_flatMap, Argument.map, Function.comp_def]

mutual

/-- The height of an element over the heights of its expressions. -/
def Element.weight : Element Nat → Nat
  | ⟨_, items, children, _, _⟩ =>
      max (greatest (items.map fun item => item.expression + 1)) (Child.weightOfAll children) + 1

/-- The height of a child over the heights of its expressions. -/
def Child.weight : Child Nat → Nat
  | .element element => element.weight
  | .hole hole => hole.expression + 1
  | .text _ | .comment _ => 1

/-- The height of the highest child over the heights of their expressions. -/
def Child.weightOfAll : List (Child Nat) → Nat
  | [] => 0
  | child :: children => max child.weight (Child.weightOfAll children)

end

/-- The height of a form over the heights of its parts, where it counts `link` above the part that
stands in front. -/
def ExpressionForm.weight (link : Nat) : ExpressionForm Nat → Nat
  | .markup element => element.weight + 1
  | form => max ((form.front?.map (· + link)).getD 0) (greatest form.inner + 1)

end Layers

/-- The height of an expression, in which a node counts `link` above the one in front of it. -/
def Expression.weigh (link : Nat) : Expression → Nat :=
  Expression.fold fun form _ => form.weight link

/-- The height of an element, in which a node counts `link` above the one in front of it. -/
def Element.weigh (link : Nat) (element : Element Expression) : Nat :=
  (element.map (Expression.weigh link)).weight

/-- The height of a child, in which a node counts `link` above the one in front of it. -/
def Child.weigh (link : Nat) (child : Child Expression) : Nat :=
  (child.map (Expression.weigh link)).weight

/-- The number of nodes on the longest way down an expression. -/
def Expression.height (expression : Expression) : Nat :=
  expression.weigh 1

/-- The number of nodes on the longest way down an expression, where a chain is one node. -/
def Expression.nesting (expression : Expression) : Nat :=
  expression.weigh 0

/-- The number of nodes on the longest way down a document, itself included. -/
def Document.height (document : Document) : Nat :=
  greatest (document.elements.map (Element.weigh 1)) + 1

/-- The number of nodes on the longest way down a document, where a chain is one node. -/
def Document.nesting (document : Document) : Nat :=
  greatest (document.elements.map (Element.weigh 0)) + 1

section Bounds

variable {link bound : Nat} {form : ExpressionForm Expression} {span : Span}

theorem Expression.weigh_mk (form : ExpressionForm Expression) (span : Span) :
    weigh link ⟨form, span⟩ = (form.map (weigh link)).weight link :=
  fold_mk _ form span

theorem Child.weightOfAll_le_iff (children : List (Child Expression)) :
    Child.weightOfAll (Child.mapAll (Expression.weigh link) children) ≤ bound ↔
      ∀ child ∈ children, child.weigh link ≤ bound := by
  induction children with
  | nil => simp [mapAll, weightOfAll]
  | cons child children ih =>
      rw [mapAll, weightOfAll, Nat.max_le, ih, List.forall_mem_cons, weigh]

/-- An element is higher by one node than what it is made of. -/
theorem Element.weigh_le_iff {element : Element Expression} :
    element.weigh link ≤ bound + 1 ↔
      (∀ item ∈ element.attributes, item.expression.weigh link + 1 ≤ bound) ∧
        ∀ child ∈ element.children, child.weigh link ≤ bound := by
  obtain ⟨name, items, children, closingName, span⟩ := element
  rw [weigh, map, weight, Nat.add_le_add_iff_right, Nat.max_le, Child.weightOfAll_le_iff,
    greatest_le_iff]
  simp

@[simp] theorem Child.weigh_element (element : Element Expression) :
    (Child.element element).weigh link = element.weigh link := by
  rw [weigh, map, weight, Element.weigh]

@[simp] theorem Child.weigh_hole (hole : Hole Expression) :
    (Child.hole hole).weigh link = hole.expression.weigh link + 1 := by
  rw [weigh, map, weight]

@[simp] theorem Child.weigh_text (text : LiteralText) : (Child.text text).weigh link = 1 := by
  rw [weigh, map, weight]

@[simp] theorem Child.weigh_comment (comment : Comment) :
    (Child.comment comment).weigh link = 1 := by
  rw [weigh, map, weight]

@[simp] theorem Expression.weigh_markup (element : Element Expression) :
    Expression.weigh link ⟨.markup element, span⟩ = element.weigh link + 1 := by
  rw [weigh_mk, ExpressionForm.map, ExpressionForm.weight, Element.weigh]

/-- What is no markup is as high as its parts make it. -/
theorem Expression.weigh_eq (unmarked : ∀ element, form ≠ .markup element) :
    Expression.weigh link ⟨form, span⟩ =
      max ((form.front?.map (weigh link · + link)).getD 0)
        (greatest (form.inner.map (weigh link)) + 1) := by
  have layer : (form.map (weigh link)).weight link =
      max (((form.map (weigh link)).front?.map (· + link)).getD 0)
        (greatest (form.map (weigh link)).inner + 1) := by
    cases form with
    | markup element => exact absurd rfl (unmarked element)
    | _ => rfl
  rw [weigh_mk, layer, ExpressionForm.front?_map, ExpressionForm.inner_map, Option.map_map]
  rfl

/-- What is no markup is no higher than its parts allow. -/
theorem Expression.weigh_le_of_parts
    (unmarked : ∀ element, form ≠ .markup element)
    (positive : 0 < bound)
    (front : ∀ part ∈ form.front?, part.weigh link + link ≤ bound)
    (inner : ∀ part ∈ form.inner, part.weigh link < bound) :
    Expression.weigh link ⟨form, span⟩ ≤ bound := by
  rw [weigh_eq unmarked, Nat.max_le]
  constructor
  · cases ahead : form.front? with
    | none => exact Nat.zero_le bound
    | some part => exact front part ahead
  · rw [Nat.add_one_le_iff]
    refine Nat.lt_of_le_pred positive (greatest_le_iff.mpr ?_)
    rintro _ member
    obtain ⟨part, present, rfl⟩ := List.mem_map.mp member
    exact Nat.le_pred_of_lt (inner part present)

end Bounds

end EmbeddedMarkup
