import EmbeddedMarkup.Proofs.Markup.WellFormed
import EmbeddedMarkup.Proofs.Outline.Forms
import EmbeddedMarkup.Proofs.Outline.Legibility

/-!
# The outlines of trees can be read

What comes from a source as it is, a string, a text, a comment, a number or a name of the host
language, is the only entry of its block.  Names of elements and attributes stand among other
entries, but they are made of name characters, so they end where their line does.
-/

namespace EmbeddedMarkup

namespace Outline

/-- The titles of blocks with nothing in them but a text of any characters. -/
def freeTitles : List String :=
  ["JSX_Text", "JSX_Comment", "Scalar_String", "Scalar_Int", "Scalar_Float", "Name", "Identifier",
    "Expr_Variable"]

instance (text : String) : Decidable (IsPlain text) :=
  inferInstanceAs (Decidable (∀ c ∈ text.toList, c ≠ '\n' ∧ c ≠ '('))

instance (label : String) : Decidable (IsLabel label) :=
  inferInstanceAs (Decidable (∀ c ∈ label.toList, c ≠ ':'))

/-! ## Names -/

theorem isPlain_of_chars
    {name : String}
    (chars : ∀ c ∈ name.toList, isMarkupNameChar c = true ∨ c = '.') :
    IsPlain name := by
  intro c member
  constructor
  · rintro rfl
    exact absurd (chars _ member) (by decide)
  · rintro rfl
    exact absurd (chars _ member) (by decide)

theorem chars_of_isDotted
    {name : List Char}
    (dotted : IsDotted name) :
    ∀ c ∈ name, isMarkupNameChar c = true ∨ c = '.' := by
  induction dotted with
  | segment segment => exact fun c member => .inl (segment.chars c member)
  | point segment _ ih =>
      intro c member
      rcases List.mem_append.mp member with inside | behind
      · exact .inl (segment.chars c inside)
      · rcases List.mem_cons.mp behind with rfl | behind
        · exact .inr rfl
        · exact ih c behind

/-- The name of an element is plain. -/
theorem isPlain_of_isWellFormed
    {element : Element Expression}
    (formed : element.IsWellFormed) :
    IsPlain element.name := by
  rcases formed.name with empty | dotted
  · rw [empty]
    decide
  · exact isPlain_of_chars (chars_of_isDotted dotted)

/-! ## Lists and nodes -/

theorem isLabel_toString (n : Nat) : IsLabel (toString n) := by
  intro c member
  rw [Nat.toString_eq_repr, Nat.toList_repr] at member
  have digit := Nat.isDigit_of_mem_toDigits (by decide) (Nat.le_refl 10) member
  rintro rfl
  cases digit

theorem isLegible_list
    {entries : List Outline}
    (legible : ∀ entry ∈ entries, entry.IsLegible freeTitles) :
    (list entries).IsLegible freeTitles := by
  refine .block (by decide) (by decide) ?_ ?_
  · intro entry member
    obtain ⟨index, small, rfl⟩ := List.mem_mapIdx.mp member
    exact isLabel_toString index
  · intro entry member
    obtain ⟨index, small, rfl⟩ := List.mem_mapIdx.mp member
    exact legible _ (List.getElem_mem small)

theorem isLegible_optional
    {part : Option Outline}
    (legible : ∀ outline ∈ part, outline.IsLegible freeTitles) :
    (optional part).IsLegible freeTitles := by
  cases part with
  | none => exact .text (by decide)
  | some outline => exact legible outline rfl

theorem isLegible_flag (value : Bool) : (flag value).IsLegible freeTitles := by
  cases value <;> exact .text (by decide)

variable {title label : String}

/-- A node with one field that is a text of any characters. -/
theorem isLegible_leaf
    (span : Span)
    (value : String)
    (known : title ∈ freeTitles ∧ IsPlain title ∧ IsLabel label) :
    (node false title span [(label, .text value)]).IsLegible freeTitles := by
  rw [node_false]
  exact .freeText known.1 known.2.1 known.2.2

/-- A node with several fields, labelled in this order, or with one that is no text of any
characters. -/
theorem isLegible_node
    {fields : List (String × Outline)}
    (labels : List String)
    (span : Span)
    (known : title ∉ freeTitles ∧ IsPlain title ∧ ∀ label ∈ labels, IsLabel label)
    (labelled : fields.map (·.1) = labels)
    (legible : ∀ entry ∈ fields.map (·.2), entry.IsLegible freeTitles) :
    (node false title span fields).IsLegible freeTitles := by
  rw [node_false]
  exact .block known.1 known.2.1
    (fun entry member => known.2.2 _ (labelled ▸ List.mem_map_of_mem member))
    fun entry member => legible _ (List.mem_map_of_mem member)

/-! ## Forms -/

theorem isLegible_arrayItem
    {entry : ArrayItem Outline}
    (legible : ∀ part ∈ entry.parts, part.IsLegible freeTitles) :
    (arrayItem false entry).IsLegible freeTitles := by
  refine isLegible_node ["key", "value", "byRef", "unpack"] _ (by decide) rfl ?_
  have key : ∀ part ∈ entry.key, part.IsLegible freeTitles := fun part member =>
    legible part (List.mem_append_left _ (Option.mem_toList.mpr member))
  have value := legible entry.value (List.mem_append_right _ List.mem_cons_self)
  simp [isLegible_optional key, value, isLegible_flag]

theorem isLegible_argument
    {entry : Argument Outline}
    (legible : entry.value.IsLegible freeTitles) :
    (argument false entry).IsLegible freeTitles := by
  refine isLegible_node ["name", "value", "byRef", "unpack"] _ (by decide) rfl ?_
  have absent : (text "null").IsLegible freeTitles := .text (by decide)
  simp [absent, legible, isLegible_flag]

theorem isLegible_arguments
    {entries : List (Argument Outline)}
    (legible : ∀ part ∈ entries.map Argument.value, part.IsLegible freeTitles) :
    (arguments false entries).IsLegible freeTitles :=
  isLegible_list (List.forall_mem_map.mpr fun _ member =>
    isLegible_argument (legible _ (List.mem_map_of_mem member)))

theorem isLegible_parameter (entry : Parameter) :
    (parameter false entry).IsLegible freeTitles := by
  refine isLegible_node ["var"] _ (by decide) rfl ?_
  have inner := @isLegible_leaf "Expr_Variable" "name" entry.span entry.name (by decide)
  exact List.forall_mem_singleton.mpr inner

/-- The outline of a form that is no markup can be read if those of its parts can. -/
theorem isLegible_form
    {shown : ExpressionForm Outline}
    (span : Span)
    (legible : ∀ part ∈ shown.expressions, part.IsLegible freeTitles)
    (unmarked : ∀ element, shown ≠ .markup element) :
    (form false shown span).IsLegible freeTitles := by
  have leaf (name : String) : (block "Identifier" [("name", .text name)]).IsLegible freeTitles :=
    .freeText (by decide) (by decide) (by decide)
  cases shown with
  | markup element => exact absurd rfl (unmarked element)
  | constant name =>
      refine isLegible_node ["name"] span (by decide) rfl (List.forall_mem_singleton.mpr ?_)
      exact isLegible_leaf span name (by decide)
  | array entries =>
      refine isLegible_node ["items"] span (by decide) rfl (List.forall_mem_singleton.mpr ?_)
      refine isLegible_list (List.forall_mem_map.mpr fun entry member => isLegible_arrayItem ?_)
      exact fun part inside => legible part (List.mem_flatMap.mpr ⟨entry, member, inside⟩)
  | property object name nullsafe =>
      have object := legible object List.mem_cons_self
      cases nullsafe <;>
        exact isLegible_node ["var", "name"] span (by decide) rfl (by simp [object, leaf])
  | methodCall object name entries nullsafe =>
      obtain ⟨object, values⟩ := List.forall_mem_cons.mp legible
      cases nullsafe <;>
        exact isLegible_node ["var", "name", "args"] span (by decide) rfl
          (by simpa [object, leaf] using isLegible_arguments values)
  | staticCall owner name entries =>
      obtain ⟨owner, values⟩ := List.forall_mem_cons.mp legible
      exact isLegible_node ["class", "name", "args"] span (by decide) rfl
        (by simpa [owner, leaf] using isLegible_arguments values)
  | classConstant owner name =>
      have owner := legible owner List.mem_cons_self
      exact isLegible_node ["class", "name"] span (by decide) rfl (by simp [owner, leaf])
  | call callee entries =>
      obtain ⟨callee, values⟩ := List.forall_mem_cons.mp legible
      exact isLegible_node ["name", "args"] span (by decide) rfl
        (by simpa [callee] using isLegible_arguments values)
  | entry collection index =>
      obtain ⟨collection, inside⟩ := List.forall_mem_cons.mp legible
      have index : (optional index).IsLegible freeTitles :=
        isLegible_optional fun outline member => inside outline (Option.mem_toList.mpr member)
      exact isLegible_node ["var", "dim"] span (by decide) rfl (by simp [collection, index])
  | binary operator left right =>
      obtain ⟨left, right⟩ := List.forall_mem_cons.mp legible
      have right := List.forall_mem_singleton.mp right
      cases operator <;>
        exact isLegible_node ["left", "right"] span (by decide) rfl (by simp [left, right])
  | not operand =>
      have operand := legible operand List.mem_cons_self
      exact isLegible_node ["expr"] span (by decide) rfl (by simp [operand])
  | negate operand =>
      have operand := legible operand List.mem_cons_self
      exact isLegible_node ["expr"] span (by decide) rfl (by simp [operand])
  | ternary condition ifTrue ifFalse =>
      obtain ⟨condition, choices⟩ := List.forall_mem_cons.mp legible
      obtain ⟨first, second⟩ := List.forall_mem_append.mp choices
      have ifTrue : (optional ifTrue).IsLegible freeTitles :=
        isLegible_optional fun outline member => first outline (Option.mem_toList.mpr member)
      have ifFalse := List.forall_mem_singleton.mp second
      exact isLegible_node ["cond", "if", "else"] span (by decide) rfl
        (by simp [condition, ifTrue, ifFalse])
  | assign target value =>
      obtain ⟨target, value⟩ := List.forall_mem_cons.mp legible
      have value := List.forall_mem_singleton.mp value
      exact isLegible_node ["var", "expr"] span (by decide) rfl (by simp [target, value])
  | arrowFunction parameters body =>
      have body := legible body List.mem_cons_self
      have parameters : (list (parameters.map (parameter false))).IsLegible freeTitles :=
        isLegible_list (List.forall_mem_map.mpr fun entry _ => isLegible_parameter entry)
      exact isLegible_node ["params", "expr"] span (by decide) rfl (by simp [parameters, body])
  | _ => exact isLegible_leaf span _ (by decide)

/-! ## Elements -/

section Elements

variable {h : Expression → Outline}

theorem isLegible_attributeItem
    {entry : AttributeItem Expression}
    (named : ∀ item, entry = .named item → IsAttributeWord item.name.toList)
    (legible : (h entry.expression).IsLegible freeTitles) :
    (attributeItem false (entry.map h)).IsLegible freeTitles := by
  cases entry with
  | named item =>
      have name : (text item.name).IsLegible freeTitles :=
        .text (isPlain_of_chars fun c member => .inl ((named item rfl).chars c member))
      have value : (h item.value).IsLegible freeTitles := legible
      exact isLegible_node ["name", "value"] item.span (by decide) rfl (by simp [name, value])
  | spread item =>
      exact isLegible_node ["expression"] item.span (by decide) rfl
        (List.forall_mem_singleton.mpr legible)

mutual

/-- The outline of a well-formed element can be read if those of its expressions can. -/
theorem isLegible_element : (element : Element Expression) →
    element.All Element.IsWellFormed →
    (∀ part ∈ element.expressions, (h part).IsLegible freeTitles) →
      (Outline.element false (element.map h)).IsLegible freeTitles
  | ⟨name, items, children, closing, span⟩, formed, legible => by
      obtain ⟨header, content⟩ := List.forall_mem_append.mp legible
      have here := formed _ .self
      have nameText : (text name).IsLegible freeTitles := .text (isPlain_of_isWellFormed here)
      have attributes : (list ((items.map (·.map h)).map (attributeItem false))).IsLegible
          freeTitles := by
        refine isLegible_list (List.forall_mem_map.mpr (List.forall_mem_map.mpr ?_))
        intro entry member
        refine isLegible_attributeItem ?_ (header _ (List.mem_map_of_mem member))
        rintro item rfl
        exact here.attributes item member
      have childList := isLegible_list (isLegible_childOutlines children
        (fun child member inner included => formed inner (.child member included)) content)
      have closingText : (text (closing.getD "null")).IsLegible freeTitles := by
        refine .text ?_
        rcases here.closing with ⟨rfl, -⟩ | same
        · decide
        · rw [show closing = some name from same]
          exact isPlain_of_isWellFormed here
      exact isLegible_node ["name", "jsxAttributes", "children", "closingName"] span (by decide) rfl
        (List.forall_mem_cons.mpr ⟨nameText, List.forall_mem_cons.mpr ⟨attributes,
          List.forall_mem_cons.mpr ⟨childList, List.forall_mem_singleton.mpr closingText⟩⟩⟩)

theorem isLegible_child : (child : Child Expression) →
    child.All Element.IsWellFormed →
    (∀ part ∈ child.expressions, (h part).IsLegible freeTitles) →
      (Outline.child false (child.map h)).IsLegible freeTitles
  | .element element, formed, legible =>
      isLegible_element element (fun inner included => formed inner (.element included)) legible
  | .text run, _, _ => isLegible_leaf run.span run.value (by decide)
  | .hole hole, _, legible =>
      isLegible_node ["expression"] hole.span (by decide) rfl
        (List.forall_mem_singleton.mpr (legible _ List.mem_cons_self))
  | .comment comment, _, _ => isLegible_leaf comment.span comment.text (by decide)

theorem isLegible_childOutlines : (children : List (Child Expression)) →
    (∀ child ∈ children, child.All Element.IsWellFormed) →
    (∀ part ∈ Child.expressionsOfAll children, (h part).IsLegible freeTitles) →
      ∀ entry ∈ childOutlines false (Child.mapAll h children), entry.IsLegible freeTitles
  | [], _, _ => fun _ none => nomatch none
  | child :: children, formed, legible => by
      obtain ⟨formedFirst, formed⟩ := List.forall_mem_cons.mp formed
      obtain ⟨first, behind⟩ := List.forall_mem_append.mp legible
      exact List.forall_mem_cons.mpr ⟨isLegible_child child formedFirst first,
        isLegible_childOutlines children formed behind⟩

end

end Elements

/-! ## Whole trees -/

/-- The outline of an expression with well-formed elements can be read. -/
theorem isLegible_ofExpression
    {expression : Expression}
    (formed : expression.All Element.IsWellFormed) :
    (ofExpression false expression).IsLegible freeTitles := by
  refine @Expression.induct (fun expression => expression.All Element.IsWellFormed →
    (ofExpression false expression).IsLegible freeTitles) ?_ expression formed
  intro shape span legible formed
  have parts (part : Expression) (member : part ∈ shape.expressions) :
      (ofExpression false part).IsLegible freeTitles :=
    legible part member (Expression.All.of_mem_expressions formed member)
  rw [ofExpression, Expression.fold_mk]
  cases shape with
  | markup element =>
      exact isLegible_element element (fun inner included => formed inner (.markup included)) parts
  | _ =>
      refine isLegible_form span ?_ (fun _ other => nomatch other)
      rw [ExpressionForm.expressions_map]
      exact List.forall_mem_map.mpr parts

theorem isLegible_ofElement
    {element : Element Expression}
    (formed : element.All Element.IsWellFormed) :
    (ofElement false element).IsLegible freeTitles :=
  isLegible_element element formed fun _ member => isLegible_ofExpression fun inner included =>
    formed inner (Element.includes_of_mem_expressions element member included)

theorem isLegible_ofDocument
    {document : Document}
    (formed : ∀ element ∈ document.elements, element.All Element.IsWellFormed) :
    (ofDocument false document).IsLegible freeTitles :=
  isLegible_list (List.forall_mem_map.mpr fun element member =>
    isLegible_ofElement (formed element member))

end Outline

end EmbeddedMarkup
