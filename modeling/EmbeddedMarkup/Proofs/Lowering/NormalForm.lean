import EmbeddedMarkup.Proofs.Lowering.Equations

/-!
# Lowered expressions

An expression is lowered when no array literal in it describes an element, wherever lowering comes.
What lowering makes of an expression is lowered, because an array literal that describes no element
does not begin to do so when its parts are lowered.  So lowering leaves alone what is lowered
already, and nothing else.
-/

namespace EmbeddedMarkup

variable {items : List (ArrayItem Expression)} {shape : MarkupShape}
  {form : ExpressionForm Expression} {span : Span}

namespace Expression

/-- `inner` is the expression, or lowering visits it in the expression. -/
inductive Visits : Expression → Expression → Prop
  | self {expression : Expression} : Visits expression expression
  | part {whole part inner : Expression} :
      part ∈ whole.form.visited →
      Visits part inner →
      Visits whole inner

/-- No array literal that lowering visits in the expression describes an element. -/
def IsLowered (expression : Expression) : Prop :=
  ∀ inner, expression.Visits inner → ¬inner.DescribesElement

end Expression

/-- No array literal that lowering visits in the element describes an element. -/
def Element.IsLowered (element : Element Expression) : Prop :=
  ∀ part ∈ element.expressions, part.IsLowered

namespace Expression

variable {expression part value : Expression}

theorem isLowered_iff :
    expression.IsLowered ↔
      ¬expression.DescribesElement ∧ ∀ part ∈ expression.form.visited, part.IsLowered := by
  constructor
  · intro lowered
    exact ⟨lowered _ .self, fun part member inner visits => lowered inner (.part member visits)⟩
  · rintro ⟨here, inside⟩ inner visits
    cases visits with
    | self => exact here
    | part member visits => exact inside _ member inner visits

/-- What is visited in something lowered is lowered. -/
theorem IsLowered.of_visits (lowered : expression.IsLowered) (visits : expression.Visits part) :
    part.IsLowered := by
  induction visits with
  | self => exact lowered
  | part member _ ih => exact ih ((isLowered_iff.mp lowered).2 _ member)

/-! ## Array literals -/

/-- What is not lowered to an element is kept, and what lowering visits in it is lowered. -/
theorem mapVisited_eq_of_lower_eq
    (same : expression.lower = ⟨form, span⟩)
    (plain : ∀ element, form ≠ .markup element) :
    expression.form.mapVisited lower = form ∧ expression.span = span := by
  obtain ⟨before, place⟩ := expression
  by_cases describes : DescribesElement ⟨before, place⟩
  · obtain ⟨items, rfl, shaped⟩ := describes
    obtain ⟨shape, described⟩ := isMarkupArray_iff.mp shaped
    rw [lower_array described] at same
    cases same
    exact absurd rfl (plain _)
  · rw [lower_of_not_describesElement describes] at same
    cases same
    exact ⟨rfl, rfl⟩

/-- Only a string is lowered to a string. -/
theorem eq_of_lower_eq_string
    {text : String}
    (same : expression.lower = ⟨.string text, span⟩) :
    expression = ⟨.string text, span⟩ := by
  obtain ⟨form, place⟩ := expression
  obtain ⟨kept, rfl⟩ := mapVisited_eq_of_lower_eq same nofun
  cases form <;> cases kept
  rfl

/-- Only an array literal is lowered to one. -/
theorem exists_of_lower_eq_array
    (same : expression.lower = ⟨.array items, span⟩) :
    ∃ before, expression = ⟨.array before, span⟩ ∧ items = before.map (·.map lower) := by
  obtain ⟨form, place⟩ := expression
  obtain ⟨kept, rfl⟩ := mapVisited_eq_of_lower_eq same nofun
  cases form <;> cases kept
  exact ⟨_, rfl, rfl⟩

/-- The key of an item names the same attribute before the item is lowered. -/
theorem attributeKey?_of_lower
    {item : ArrayItem Expression}
    {key : Option String}
    (found : attributeKey? (item.map lower) = some key) :
    attributeKey? item = some key := by
  obtain ⟨_ | ⟨form, place⟩, value, unpack, span⟩ := item
  · exact found
  · unfold attributeKey? at found
    split at found
    · rename_i none_given
      cases none_given
    · rename_i name span given
      cases found
      rw [eq_of_lower_eq_string (Option.some.inj given)]
      rfl
    · cases found

/-- Attributes have the keys that they have lowered. -/
theorem mapM_attributeKey?_of_lower
    {keys : List (Option String)}
    (found : (items.map (·.map lower)).mapM attributeKey? = some keys) :
    items.mapM attributeKey? = some keys := by
  induction items generalizing keys with
  | nil => exact found
  | cons item items ih =>
      simp only [List.map_cons, List.mapM_cons, Option.bind_eq_bind, Option.bind_eq_some_iff,
        Option.pure_def, Option.some.injEq] at found ⊢
      obtain ⟨key, here, keys, behind, rfl⟩ := found
      exact ⟨key, attributeKey?_of_lower here, keys, ih behind, rfl⟩

/-- An array literal whose lowered items describe an element describes one itself. -/
theorem isElementArray_of_lower (described : IsElementArray (items.map (·.map lower)) shape) :
    IsElementArray items shape := by
  generalize lowered : items.map (·.map lower) = after at described
  cases described with
  | named =>
      obtain ⟨⟨key, value, unpack, span⟩, rfl, same⟩ := List.map_eq_singleton_iff.mp lowered
      simp only [ArrayItem.map, ArrayItem.mk.injEq] at same
      obtain ⟨-, same, rfl, rfl⟩ := same
      rw [eq_of_lower_eq_string same]
      exact .named
  | attributed found =>
      obtain ⟨⟨key, value, unpack, span⟩, rest, rfl, same, behind⟩ :=
        List.map_eq_cons_iff.mp lowered
      obtain ⟨⟨key', value', unpack', span'⟩, children, rfl, same', -⟩ :=
        List.map_eq_cons_iff.mp behind
      simp only [ArrayItem.map, ArrayItem.mk.injEq] at same same'
      obtain ⟨-, same, rfl, rfl⟩ := same
      obtain ⟨-, same', rfl, rfl⟩ := same'
      obtain ⟨attributes, rfl, rfl⟩ := exists_of_lower_eq_array same'
      rw [eq_of_lower_eq_string same]
      exact .attributed (mapM_attributeKey?_of_lower found)

/-- What lowering makes of an expression that describes no element describes none. -/
theorem not_describesElement_lower : ¬expression.lower.DescribesElement := by
  rintro ⟨items, isArray, shaped⟩
  obtain ⟨shape, described⟩ := isMarkupArray_iff.mp shaped
  obtain ⟨before, whole, rfl⟩ : ∃ before, expression = ⟨.array before, expression.span⟩ ∧
      items = before.map (·.map lower) := by
    refine exists_of_lower_eq_array ?_
    rw [← span_lower]
    generalize expression.lower = after at isArray ⊢
    cases after
    cases isArray
    rfl
  rw [whole, lower_array (isElementArray_of_lower described)] at isArray
  cases isArray

/-! ## Lowered elements -/

/-- What stands in the child that a value describes is visited in the lowered value. -/
theorem visits_of_loweredChild?
    {child : Child Expression}
    (made : value.loweredChild? = some child)
    (member : part ∈ child.expressions) :
    value.lower.Visits part := by
  unfold loweredChild? at made
  split at made
  · split at made <;> cases made
    cases member
  · split at made <;> cases made
    · rename_i isMarkup
      refine .part ?_ .self
      rw [isMarkup]
      exact member
    · rw [List.mem_singleton.mp member]
      exact .self

/-- What stands in a described element is visited in one of the values that it is made of. -/
theorem exists_visits_of_mem_loweredElement
    (member : part ∈ (loweredElement shape items span).expressions) :
    ∃ value ∈ elementValues items, value.lower.Visits part := by
  simp only [Element.expressions, loweredElement, Child.expressionsOfAll_eq, List.mem_append,
    List.mem_map, List.mem_flatMap, List.mem_filterMap] at member
  rcases member with ⟨_, ⟨item, listed, rfl⟩, rfl⟩ | ⟨child, ⟨item, listed, made⟩, member⟩
  · refine ⟨item.value, List.mem_map_of_mem (List.mem_append_left _ listed), ?_⟩
    rw [ArrayItem.expression_loweredEntry]
    exact .self
  · exact ⟨item.value, List.mem_map_of_mem (List.mem_append_right _ listed),
      visits_of_loweredChild? made member⟩

/-- Nothing that lowering visits in a lowered expression describes an element. -/
theorem isLowered_lower (expression : Expression) : expression.lower.IsLowered := by
  induction expression using induct_lowering with
  | turned items shape span described inside =>
      refine isLowered_iff.mpr ⟨not_describesElement_lower, ?_⟩
      rw [lower_array described]
      intro part (member : part ∈ (loweredElement shape items span).expressions)
      obtain ⟨value, made, visits⟩ := exists_visits_of_mem_loweredElement member
      exact (inside value made).of_visits visits
  | plain form span describes inside =>
      refine isLowered_iff.mpr ⟨not_describesElement_lower, ?_⟩
      rw [lower_of_not_describesElement describes, ExpressionForm.visited_mapVisited]
      exact List.forall_mem_map.mpr inside

/-- A lowered expression is left alone. -/
theorem IsLowered.lower_eq_self (lowered : expression.IsLowered) :
    expression.lower = expression := by
  induction expression using induct_lowering with
  | turned items shape span described =>
      exact absurd ⟨items, rfl, isMarkupArray_iff.mpr ⟨shape, described⟩⟩
        (isLowered_iff.mp lowered).1
  | plain form span describes inside =>
      obtain ⟨-, visited⟩ := isLowered_iff.mp lowered
      rw [lower_of_not_describesElement describes, ExpressionForm.mapVisited_eq_self]
      exact fun part member => inside part member (visited part member)

theorem lower_eq_self_iff : expression.lower = expression ↔ expression.IsLowered := by
  constructor
  · intro same
    rw [← same]
    exact isLowered_lower expression
  · exact IsLowered.lower_eq_self

end Expression

namespace Element

variable {element : Element Expression}

theorem isLowered_lower (element : Element Expression) : element.lower.IsLowered := by
  intro part member
  rw [lower, expressions_map] at member
  obtain ⟨inner, -, rfl⟩ := List.mem_map.mp member
  exact inner.isLowered_lower

theorem lower_eq_self_iff : element.lower = element ↔ element.IsLowered := by
  constructor
  · intro same
    rw [← same]
    exact isLowered_lower element
  · intro lowered
    exact element.map_eq_self fun part member => (lowered part member).lower_eq_self

end Element

/--
What lowering makes of an expression or of an element is lowered.  Lowering changes exactly what is
not lowered yet, so doing it twice is doing it once.
-/
theorem isLowered_lower_and_lower_eq_self_iff
    (expression : Expression)
    (element : Element Expression) :
    (expression.lower.IsLowered ∧ (expression.lower = expression ↔ expression.IsLowered) ∧
      expression.lower.lower = expression.lower) ∧
    (element.lower.IsLowered ∧ (element.lower = element ↔ element.IsLowered) ∧
      element.lower.lower = element.lower) :=
  ⟨⟨expression.isLowered_lower, Expression.lower_eq_self_iff,
      expression.isLowered_lower.lower_eq_self⟩,
    ⟨element.isLowered_lower, Element.lower_eq_self_iff,
      Element.lower_eq_self_iff.mpr element.isLowered_lower⟩⟩

end EmbeddedMarkup
