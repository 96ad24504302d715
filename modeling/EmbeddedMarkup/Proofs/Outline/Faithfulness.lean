import EmbeddedMarkup.Proofs.Markup.WellFormed
import EmbeddedMarkup.Proofs.Outline.Determination

/-!
# Outlines of trees that are read

The text of an outline tells the tree that it was made of, when the tree was read from a source.  A
text tells its outline, because the titles that readers let through hold no parenthesis and because
further lines of a text are indented; and an outline tells its tree, by the titles.

Spans are not shown, and neither is one thing more: whether an element `null` without content ends
with its opening tag or has a closing tag.  Numbers are told as far as their texts differ, so it is
asked that they do.
-/

namespace EmbeddedMarkup

/-- The document is read from some source. -/
def Document.IsRead (document : Document) : Prop :=
  ∃ text budget, Document.ofText text budget = .ok document

/-- The element is read somewhere in some source. -/
def Element.IsRead (element : Element Expression) : Prop :=
  ∃ modes start after stop, modes.frames ≠ [] ∧
    (readElement hostDelegate modes start).Yields element after stop

/-- The expression is read somewhere in some source, as a part of what is read there or alone. -/
inductive Expression.IsRead : Expression → Prop
  | whole {expression : Expression} {power : Nat} {modes after : ModeStack} {stream : TokenStream}
      {stop : Cursor} :
      modes.frames ≠ [] →
      (readExpression power modes stream).Reaches expression after stop →
      Expression.IsRead expression
  | inElement {element : Element Expression} {part : Expression} :
      element.IsRead →
      part ∈ element.expressions →
      Expression.IsRead part
  | part {whole part : Expression} :
      Expression.IsRead whole →
      part ∈ whole.form.expressions →
      Expression.IsRead part

/-- Elements that are read keep the rules of markup, at any depth. -/
theorem Element.IsRead.formed {element : Element Expression} (isRead : element.IsRead) :
    element.All IsWellFormed := by
  obtain ⟨modes, start, after, stop, proper, yields⟩ := isRead
  obtain ⟨-, reads⟩ := reads_of_readElement proper yields
  exact reads.all (fun _ _ _ _ _ => isWellFormed_of_reads) (Cursor.le_refl start)

theorem Expression.IsRead.formed {expression : Expression} (isRead : expression.IsRead) :
    expression.All Element.IsWellFormed := by
  induction isRead with
  | whole proper reaches =>
      obtain ⟨-, reads⟩ := reads_of_readExpression proper reaches
      exact reads.all (fun _ _ _ _ _ => isWellFormed_of_reads) (Cursor.le_refl _)
  | inElement isRead member =>
      exact fun inner included =>
        isRead.formed inner (Element.includes_of_mem_expressions _ member included)
  | part _ member formed => exact Expression.All.of_mem_expressions formed member

/-- The elements of a document that is read are read. -/
theorem Document.IsRead.of_mem
    {document : Document}
    {element : Element Expression}
    (isRead : document.IsRead)
    (member : element ∈ document.elements) :
    element.IsRead := by
  obtain ⟨text, budget, read⟩ := isRead
  obtain ⟨first, behind, reads⟩ := reads_of_mem_ofText read member
  exact ⟨_, first, _, behind, List.cons_ne_nil _ _,
    reads.yields_readElement (ModeStack.admits_initial budget)⟩

theorem Expression.isRead_of_ofText
    {text : String}
    {budget : Nat}
    {expression : Expression}
    (read : Expression.ofText text budget = .ok expression) :
    expression.IsRead := by
  obtain ⟨stop, behind, reads, -⟩ := reads_of_ofText read
  exact .whole (List.cons_ne_nil _ _)
    (reads.isRead _ (.fresh true (.ofText text)) (ModeStack.admits_initial budget) rfl)

/-! ## Outlines with the same text -/

namespace Outline

section Rendering

variable {element element' : Element Expression} {expression expression' : Expression}

/-- Numbers that are told by their texts can be read from them. -/
theorem exists_number
    {values : Set Double}
    (distinct : values.InjOn Double.plainText) :
    ∃ number : String → Double, ∀ value ∈ values, number value.plainText = value :=
  ⟨Function.invFunOn Double.plainText values, fun _ member => distinct.leftInvOn_invFunOn member⟩

/-- Expressions with well-formed elements have outlines with the same text if and only if they are
equal up to spans and closing tags of elements `null`. -/
theorem render_ofExpression_eq_iff
    (formed : expression.All Element.IsWellFormed)
    (formed' : expression'.All Element.IsWellFormed)
    (distinct : Set.InjOn Double.plainText
      {value | expression.HasFloat value ∨ expression'.HasFloat value}) :
    (ofExpression false expression).render = (ofExpression false expression').render ↔
      expression.shown = expression'.shown := by
  constructor
  · intro same
    obtain ⟨number, reads⟩ := exists_number distinct
    have outlines := eq_of_render_eq (isLegible_ofExpression formed)
      (isLegible_ofExpression formed') same
    exact shown_eq_of_ofExpression_eq ⟨formed, fun value has => reads value (.inl has)⟩
      ⟨formed', fun value has => reads value (.inr has)⟩ outlines
  · intro same
    rw [← ofExpression_shown, same, ofExpression_shown]

/-- Elements that are well-formed have outlines with the same text if and only if they are equal up
to spans and closing tags of elements `null`. -/
theorem render_ofElement_eq_iff
    (formed : element.All Element.IsWellFormed)
    (formed' : element'.All Element.IsWellFormed)
    (distinct : Set.InjOn Double.plainText
      {value | element.HasFloat value ∨ element'.HasFloat value}) :
    (ofElement false element).render = (ofElement false element').render ↔
      element.shown = element'.shown := by
  constructor
  · intro same
    obtain ⟨number, reads⟩ := exists_number distinct
    have outlines := eq_of_render_eq (isLegible_ofElement formed) (isLegible_ofElement formed') same
    exact shown_eq_of_ofElement_eq ⟨formed, fun value has => reads value (.inl has)⟩
      ⟨formed', fun value has => reads value (.inr has)⟩ outlines
  · intro same
    rw [← ofElement_shown, same, ofElement_shown]

/-- Documents with well-formed elements have outlines with the same text if and only if they are
equal up to spans and closing tags of elements `null`. -/
theorem render_ofDocument_eq_iff
    {document document' : Document}
    (formed : ∀ element ∈ document.elements, element.All Element.IsWellFormed)
    (formed' : ∀ element ∈ document'.elements, element.All Element.IsWellFormed)
    (distinct : Set.InjOn Double.plainText
      {value | document.HasFloat value ∨ document'.HasFloat value}) :
    (ofDocument false document).render = (ofDocument false document').render ↔
      document.elements.map Element.shown = document'.elements.map Element.shown := by
  constructor
  · intro same
    obtain ⟨number, reads⟩ := exists_number distinct
    have outlines := list_inj (eq_of_render_eq (isLegible_ofDocument formed)
      (isLegible_ofDocument formed') same)
    refine map_eq_of_map_eq (fun element member element' member' => ?_) outlines
    exact shown_eq_of_ofElement_eq
      ⟨formed element member, fun value has => reads value (.inl ⟨element, member, has⟩)⟩
      ⟨formed' element' member', fun value has => reads value (.inr ⟨element', member', has⟩)⟩
  · intro same
    have outlines (document : Document) : ofDocument false document =
        list ((document.elements.map Element.shown).map (ofElement false)) := by
      rw [List.map_map]
      exact congrArg list (List.map_congr_left fun element _ => (ofElement_shown element).symm)
    rw [outlines, same, ← outlines]

end Rendering

end Outline

/-! ## Elements without attributes and children -/

section Childless

variable {name : String} {closing : Option String}

/-- The element has no attributes and no children. -/
def childless (name : String) (closing : Option String) : Element Expression :=
  ⟨name, [], [], closing, default⟩

/-- An element without attributes and children has neither of them in any other place. -/
theorem exists_eq_of_withoutSpans_eq_childless
    {element : Element Expression}
    (same : element.withoutSpans = (childless name closing).withoutSpans) :
    ∃ span, element = ⟨name, [], [], closing, span⟩ := by
  obtain ⟨name, items, children, closing, span⟩ := element
  simp only [childless, Element.withoutSpans_mk, Element.mk.injEq, List.map_nil,
    List.map_eq_nil_iff] at same
  obtain ⟨rfl, rfl, rfl, rfl, -⟩ := same
  exact ⟨span, rfl⟩

/-- A text of an element without attributes and children is read as it. -/
theorem exists_isRead_childless
    {text : String}
    (written : IsElement text.toList (childless name closing)) :
    ∃ span, Document.IsRead ⟨[⟨name, [], [], closing, span⟩]⟩ := by
  have behind : ((Cursor.ofText text).advanceBy text.toList.length).rest = [] :=
    Cursor.rest_advanceBy_length (List.append_nil _).symm
  have ended : ((Cursor.ofText text).advanceBy text.toList.length).skipBlanks.rest = [] := by
    rw [Cursor.rest_skipBlanks, behind]
    rfl
  obtain ⟨read, level, same, document⟩ :=
    Document.exists_ofText_withoutSpans written (List.append_nil _).symm
      (congrArg Prod.fst (HostScanner.next_of_ended ended))
  obtain ⟨span, rfl⟩ := exists_eq_of_withoutSpans_eq_childless same
  exact ⟨span, text, level, document level (Nat.le_refl level)⟩

/-- There are no numbers in an element without attributes and children. -/
theorem not_hasFloat_childless {span : Span} {value : Double} :
    ¬Element.HasFloat ⟨name, [], [], closing, span⟩ value := by
  rintro ⟨part, member, -⟩
  cases member

end Childless

/-! ## Literals of numbers -/

/-- A number that a text spells is read from it. -/
theorem exists_isRead_float
    {text : List Char}
    {value : Double}
    (spells : Spells text (.float value)) :
    ∃ span, Expression.IsRead ⟨.float value, span⟩ := by
  have operand : IsOperand text ⟨.float value, default⟩ := spells.isOperand rfl
  obtain ⟨⟨form, span⟩, least, same, read⟩ := (operand.leads.mono (Nat.zero_le _)).ofText_eq_ok
  have same : form = .float value := by
    cases form <;> simp_all
  subst same
  exact ⟨span, Expression.isRead_of_ofText (read least (Nat.le_refl least))⟩

/-- The number of a literal is the only one in it. -/
theorem hasFloat_float_iff {value other : Double} {span : Span} :
    Expression.HasFloat ⟨.float value, span⟩ other ↔ other = value := by
  constructor
  · rintro ⟨place, contains⟩
    cases contains with
    | self => rfl
    | part member _ => cases member
  · rintro rfl
    exact ⟨span, .self⟩

/-! ## Trees that are read -/

/--
Trees that are read have outlines with the same text, positions left out, if and only if they are
equal up to their spans and to how elements `null` without content are closed.
-/
theorem Outline.render_eq_iff_of_isRead :
    (∀ document document' : Document, document.IsRead → document'.IsRead →
      Set.InjOn Double.plainText {value | document.HasFloat value ∨ document'.HasFloat value} →
        ((ofDocument false document).render = (ofDocument false document').render ↔
          document.elements.map Element.shown = document'.elements.map Element.shown)) ∧
    (∀ element element' : Element Expression, element.IsRead → element'.IsRead →
      Set.InjOn Double.plainText {value | element.HasFloat value ∨ element'.HasFloat value} →
        ((ofElement false element).render = (ofElement false element').render ↔
          element.shown = element'.shown)) ∧
    ∀ expression expression' : Expression, expression.IsRead → expression'.IsRead →
      Set.InjOn Double.plainText
        {value | expression.HasFloat value ∨ expression'.HasFloat value} →
        ((ofExpression false expression).render = (ofExpression false expression').render ↔
          expression.shown = expression'.shown) :=
  ⟨fun _ _ isRead isRead' =>
      render_ofDocument_eq_iff (fun _ member => (isRead.of_mem member).formed)
        fun _ member => (isRead'.of_mem member).formed,
    fun _ _ isRead isRead' => render_ofElement_eq_iff isRead.formed isRead'.formed,
    fun _ _ isRead isRead' => render_ofExpression_eq_iff isRead.formed isRead'.formed⟩

/-- An element `null` looks alike whichever way it is closed, and different numbers do not. -/
theorem Outline.render_eq_iff_of_isRead_null :
    (∃ document document' : Document, document.IsRead ∧ document'.IsRead ∧
      document.elements.map Element.withoutSpans ≠ document'.elements.map Element.withoutSpans ∧
      (ofDocument false document).render = (ofDocument false document').render) ∧
    (∃ element element' : Element Expression, element.IsRead ∧ element'.IsRead ∧
      element.withoutSpans ≠ element'.withoutSpans ∧
      (ofElement false element).render = (ofElement false element').render) ∧
    ∃ expression expression' : Expression, expression.IsRead ∧ expression'.IsRead ∧
      (∃ value, expression.HasFloat value) ∧ (∃ value, expression'.HasFloat value) ∧
      (ofExpression false expression).render ≠ (ofExpression false expression').render := by
  have name : IsDotted "null".toList := .segment ⟨rfl, by decide⟩
  have opened : IsElement "<null />".toList (childless "null" none) :=
    (@Writes.selfClosing "null".toList [] _ _ default blank_nil name
      (@Writes.selfClosingEnd [' '] blank_space)).isReadAs
  have closed : IsElement "<null></null>".toList (childless "null" (some "null")) :=
    (@Writes.closed "null".toList [] _ _ _ _ default blank_nil name (@Writes.headerEnd [] blank_nil)
      (@Writes.close "null".toList [] [] [] .tag [] (.blank blank_nil) blank_nil
        blank_nil)).isReadAs
  have first : Spells "1.5".toList (.float (.ofDecimal ⟨15, -1⟩)) := ⟨List.cons_ne_nil _ _, rfl⟩
  have second : Spells "2.5".toList (.float (.ofDecimal ⟨25, -1⟩)) := ⟨List.cons_ne_nil _ _, rfl⟩
  have different : (Double.ofDecimal ⟨15, -1⟩).plainText ≠
      (Double.ofDecimal ⟨25, -1⟩).plainText := by decide +kernel
  obtain ⟨documents, elements, expressions⟩ := render_eq_iff_of_isRead
  obtain ⟨span, isRead⟩ := exists_isRead_childless opened
  obtain ⟨span', isRead'⟩ := exists_isRead_childless closed
  refine ⟨⟨_, _, isRead, isRead', by simp, ?_⟩, ⟨_, _, isRead.of_mem List.mem_cons_self,
    isRead'.of_mem List.mem_cons_self, by simp, ?_⟩, ?_⟩
  · refine (documents _ _ isRead isRead' ?_).mpr rfl
    rintro value (⟨element, member, has⟩ | ⟨element, member, has⟩)
    · obtain rfl := List.mem_singleton.mp member
      exact absurd has not_hasFloat_childless
    · obtain rfl := List.mem_singleton.mp member
      exact absurd has not_hasFloat_childless
  · refine (elements _ _ (isRead.of_mem List.mem_cons_self)
      (isRead'.of_mem List.mem_cons_self) ?_).mpr rfl
    rintro value (has | has)
    · exact absurd has not_hasFloat_childless
    · exact absurd has not_hasFloat_childless
  · obtain ⟨place, isRead⟩ := exists_isRead_float first
    obtain ⟨place', isRead'⟩ := exists_isRead_float second
    refine ⟨_, _, isRead, isRead', ⟨_, hasFloat_float_iff.mpr rfl⟩,
      ⟨_, hasFloat_float_iff.mpr rfl⟩, fun same => ?_⟩
    have shown := (expressions _ _ isRead isRead' ?_).mp same
    · rw [Expression.shown_mk, Expression.shown_mk] at shown
      exact different (congrArg Double.plainText
        (ExpressionForm.float.inj (congrArg Expression.form shown)))
    · simp only [hasFloat_float_iff]
      rintro value (rfl | rfl) other (rfl | rfl) told
      · rfl
      · exact absurd told different
      · exact absurd told.symm different
      · rfl

end EmbeddedMarkup
