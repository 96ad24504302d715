import EmbeddedMarkup.Proofs.Lowering.Equations
import EmbeddedMarkup.Proofs.Markup.WellFormed
import EmbeddedMarkup.Proofs.Reading.Accesses

/-!
# The rules of markup under lowering

Elements that were written keep the rules of markup when the expressions in them are lowered.  What
an array literal describes keeps them only as far as the strings in it do: the element is closed by
its own name, but its name may be empty although it has attributes, its keys may be no names of
attributes, and its strings may be blank.
-/

namespace EmbeddedMarkup

variable {Holds : Element Expression → Prop} {expression whole part inner value : Expression}
  {items : List (ArrayItem Expression)} {shape : MarkupShape} {form : ExpressionForm Expression}
  {span : Span}

/-! ## Changing expressions -/

mutual

/-- An element keeps a property of elements when its expressions are changed and have it. -/
theorem Element.all_map
    {f : Expression → Expression}
    (kept : ∀ inner : Element Expression, Holds inner → Holds (inner.map f)) :
    (element : Element Expression) → element.All Holds →
      (∀ part ∈ element.expressions, (f part).All Holds) → (element.map f).All Holds
  | ⟨name, items, children, closingName, span⟩ => by
      intro all changed
      obtain ⟨header, content⟩ := List.forall_mem_append.mp changed
      have here : Holds (Element.map f ⟨name, items, children, closingName, span⟩) :=
        kept _ (all _ .self)
      refine Element.all_of_parts here (List.forall_mem_map.mpr fun item member => ?_) ?_
      · rw [AttributeItem.expression_map]
        exact header _ (List.mem_map_of_mem member)
      · exact Child.all_mapAll kept children
          (fun child member inner included => all inner (.child member included)) content

theorem Child.all_map
    {f : Expression → Expression}
    (kept : ∀ inner : Element Expression, Holds inner → Holds (inner.map f)) :
    (child : Child Expression) → child.All Holds →
      (∀ part ∈ child.expressions, (f part).All Holds) → (child.map f).All Holds
  | .element element => fun all changed =>
      Child.all_element (Element.all_map kept element
        (fun inner included => all inner (.element included)) changed)
  | .hole _ => fun _ changed => Child.all_hole (changed _ List.mem_cons_self)
  | .text _ => fun _ _ => Child.all_text
  | .comment _ => fun _ _ => Child.all_comment

theorem Child.all_mapAll
    {f : Expression → Expression}
    (kept : ∀ inner : Element Expression, Holds inner → Holds (inner.map f)) :
    (children : List (Child Expression)) → (∀ child ∈ children, child.All Holds) →
      (∀ part ∈ Child.expressionsOfAll children, (f part).All Holds) →
      ∀ child ∈ Child.mapAll f children, child.All Holds
  | [] => fun _ _ _ none => nomatch none
  | child :: children => by
      intro all changed
      obtain ⟨first, others⟩ := List.forall_mem_cons.mp all
      obtain ⟨here, behind⟩ := List.forall_mem_append.mp changed
      exact List.forall_mem_cons.mpr
        ⟨Child.all_map kept child first here, Child.all_mapAll kept children others behind⟩

end

/-! ## Elements in lowered expressions -/

namespace Expression

/-- In the lowered string there are no elements. -/
theorem all_lower_string {text : String} : (lower ⟨.string text, span⟩).All Holds := by
  have plain : ¬DescribesElement ⟨.string text, span⟩ := by
    rintro ⟨items, isArray, -⟩
    cases isArray
  rw [lower_of_not_describesElement plain]
  exact all_of_parts (fun _ same => nomatch same) (List.forall_mem_nil _)

/-- The child that a value describes holds the elements of the lowered value. -/
theorem all_loweredChild?_iff :
    (∀ child, value.loweredChild? = some child → child.All Holds) ↔ value.lower.All Holds := by
  by_cases isString : ∃ text, value.form = .string text
  · obtain ⟨form, span⟩ := value
    obtain ⟨text, rfl⟩ := isString
    refine ⟨fun _ => all_lower_string, fun _ child made => ?_⟩
    simp only [loweredChild?, Option.ite_none_left_eq_some, Option.some.injEq] at made
    obtain ⟨-, rfl⟩ := made
    exact Child.all_text
  · rw [loweredChild?_of_ne_string (not_exists.mp isString)]
    generalize value.lower = after
    obtain ⟨form, span⟩ := after
    cases form with
    | markup element =>
        constructor
        · intro all
          exact all_markup fun inner included => all _ rfl inner (.element included)
        · rintro all _ ⟨⟩
          exact Child.all_element fun inner included => all inner (.markup included)
    | _ =>
        constructor
        · intro all inner included
          exact all _ rfl inner (.hole included)
        · rintro all _ ⟨⟩
          exact Child.all_hole all

/-- The elements that an array literal becomes are its own and those in its lowered values. -/
theorem all_lower_array_iff (described : IsElementArray items shape) :
    (lower ⟨.array items, span⟩).All Holds ↔
      Holds (loweredElement shape items span) ∧
        ∀ value ∈ elementValues items, value.lower.All Holds := by
  have inside : (∀ value ∈ elementValues items, value.lower.All Holds) ↔
      (∀ item ∈ attributeItems items, item.value.lower.All Holds) ∧
        ∀ item ∈ items.drop 2, item.value.lower.All Holds := by
    rw [elementValues, List.forall_mem_map, List.forall_mem_append]
  rw [lower_array described, inside]
  constructor
  · intro all
    have all : (loweredElement shape items span).All Holds := fun inner included =>
      all inner (.markup included)
    refine ⟨all _ .self, fun item member => ?_, fun item member => ?_⟩
    · intro inner included
      rw [← ArrayItem.expression_loweredEntry] at included
      exact all inner (.item (List.mem_map_of_mem member) included)
    · refine all_loweredChild?_iff.mp fun child made inner included =>
        all inner (.child ?_ included)
      exact List.mem_filterMap.mpr ⟨item, member, made⟩
  · rintro ⟨here, header, content⟩
    refine all_markup (Element.all_of_parts here (List.forall_mem_map.mpr fun item member => ?_) ?_)
    · rw [ArrayItem.expression_loweredEntry]
      exact header item member
    · intro child member
      obtain ⟨item, listed, made⟩ := List.mem_filterMap.mp member
      exact all_loweredChild?_iff.mpr (content item listed) child made

/-- The elements in anything else are those that stood there and those in what was visited. -/
theorem all_lower_iff_of_not_describesElement
    (kept : ∀ inner : Element Expression, Holds inner → Holds (inner.map lower))
    (all : whole.All Holds)
    (plain : ¬whole.DescribesElement) :
    whole.lower.All Holds ↔ ∀ part ∈ whole.form.visited, part.lower.All Holds := by
  obtain ⟨form, span⟩ := whole
  rw [lower_of_not_describesElement plain]
  constructor
  · intro all part member
    refine all.of_mem_expressions (ExpressionForm.visited_subset_expressions ?_)
    rw [ExpressionForm.visited_mapVisited]
    exact List.mem_map_of_mem member
  · intro inside
    have changed : ∀ part ∈ (form.mapVisited lower).visited, part.All Holds := by
      rw [ExpressionForm.visited_mapVisited]
      exact List.forall_mem_map.mpr inside
    cases form with
    | markup element =>
        exact all_markup (Element.all_map kept element
          (fun inner included => all inner (.markup included)) inside)
    | staticCall owner name arguments =>
        have owner_all : owner.All Holds := all.of_mem_expressions List.mem_cons_self
        exact all_of_parts (fun _ same => nomatch same)
          (List.forall_mem_cons.mpr ⟨owner_all, changed⟩)
    | classConstant owner name => exact all
    | _ => exact all_of_parts (fun _ same => nomatch same) changed

/--
A property of all elements in an expression that survives lowering inside the elements holds of all
elements in the lowered expression when it holds of those that array literals become.
-/
theorem all_lower_iff
    (kept : ∀ inner : Element Expression, Holds inner → Holds (inner.map lower))
    (all : expression.All Holds) :
    expression.lower.All Holds ↔
      expression.AllTurned fun items shape span => Holds (loweredElement shape items span) := by
  induction expression using induct_lowering with
  | turned items shape span described inside =>
      rw [all_lower_array_iff described, allTurned_array_iff described]
      refine and_congr_right fun _ => forall₂_congr fun value member => ?_
      obtain ⟨part, listed, contains⟩ := contains_of_mem_elementValues member
      exact inside value member (all.of_contains (.part listed contains))
  | plain form span describes inside =>
      rw [all_lower_iff_of_not_describesElement kept all describes,
        allTurned_iff_of_not_describesElement describes]
      refine forall₂_congr fun part member => inside part member ?_
      exact all.of_mem_expressions (ExpressionForm.visited_subset_expressions member)

end Expression

/-! ## Rules -/

/-- A name that an attribute may have: it is not empty and does not start with a digit. -/
def NamesAttribute (name : String) : Prop :=
  ∃ first rest, name.toList = first :: rest ∧ first.isDigit = false

/-- The element has no closing name and no children, or its own name closes it. -/
def Element.ClosesItself (element : Element Expression) : Prop :=
  element.closingName = none ∧ element.children = [] ∨ element.closingName = some element.name

/-- What holds of elements, attributes and texts wherever they come from markup. -/
structure Element.KeepsRules (element : Element Expression) : Prop where
  closing : element.ClosesItself
  fragment : element.name = "" → element.attributes = []
  attributes : ∀ item, .named item ∈ element.attributes → NamesAttribute item.name
  texts : ∀ text, .text text ∈ element.children → ¬Blank text.value.toList

/-- The strings in an array literal are right for the element that it describes. -/
structure HasRightStrings (items : List (ArrayItem Expression)) (shape : MarkupShape) : Prop where
  fragment : shape.name = "" → attributeItems items = []
  attributes : ∀ item ∈ attributeItems items, ∀ name span, item.key = some ⟨.string name, span⟩ →
    NamesAttribute name
  texts : ∀ item ∈ items.drop 2, ∀ text span, item.value = ⟨.string text, span⟩ →
    text = "" ∨ ¬Blank text.toList

theorem IsAttributeWord.namesAttribute
    {name : String}
    (isWord : IsAttributeWord name.toList) :
    NamesAttribute name := by
  obtain ⟨first, rest, spelled⟩ := List.exists_cons_of_ne_nil isWord.nonempty
  exact ⟨first, rest, spelled, (isWord.first first (spelled ▸ rfl)).1⟩

/-- Every element that is read keeps the rules. -/
theorem keepsRules_of_reads
    {level : Nat}
    {element : Element Expression}
    {c d : Cursor}
    (reads : Reads level (.element element) c d) :
    element.KeepsRules := by
  have rules := isWellFormed_of_reads reads
  refine ⟨?_, rules.fragment, fun item member => (rules.attributes item member).namesAttribute, ?_⟩
  · exact rules.closing.imp_left fun ⟨unclosed, _, empty⟩ => ⟨unclosed, empty⟩
  · intro text member
    cases reads with
    | selfClosingElement => cases member
    | closedElement _ _ _ content =>
        rcases child_of_reads content _ _ _ rfl _ member with ⟨_, same, visible⟩ | ⟨_, element⟩ |
          ⟨_, _, braces⟩
        · cases same
          exact visible
        · cases element
        · cases braces

/-- Changed expressions change neither names nor the number of children. -/
theorem Element.ClosesItself.map
    {element : Element Expression}
    (closes : element.ClosesItself)
    (f : Expression → Expression) :
    (element.map f).ClosesItself := by
  obtain ⟨name, items, children, closingName, span⟩ := element
  refine closes.imp_left fun ⟨unclosed, empty⟩ => ⟨unclosed, ?_⟩
  exact (Child.mapAll_eq f children).trans (List.map_eq_nil_iff.mpr empty)

/-- Changed expressions change none of what the rules are about. -/
theorem Element.KeepsRules.map
    {element : Element Expression}
    (rules : element.KeepsRules)
    (f : Expression → Expression) :
    (element.map f).KeepsRules := by
  have closing := rules.closing.map f
  obtain ⟨name, items, children, closingName, span⟩ := element
  obtain ⟨-, fragment, attributes, texts⟩ := rules
  refine ⟨closing, fun unnamed => List.map_eq_nil_iff.mpr (fragment unnamed), fun item member => ?_,
    fun text member => ?_⟩
  · obtain ⟨before | before, listed, same⟩ := List.mem_map.mp member <;> cases same
    exact attributes before listed
  · have member : .text text ∈ Child.mapAll f children := member
    rw [Child.mapAll_eq] at member
    obtain ⟨before, listed, same⟩ := List.mem_map.mp member
    cases before <;> cases same
    exact texts text listed

/-- The entry of a header that an item describes is an attribute where the key is a string. -/
theorem ArrayItem.loweredEntry_eq_named_iff
    {item : ArrayItem Expression}
    {entry : Attribute Expression} :
    item.loweredEntry = .named entry ↔
      ∃ name span, item.key = some ⟨.string name, span⟩ ∧
        ⟨name, item.value.lower, item.span⟩ = entry := by
  constructor
  · intro same
    unfold loweredEntry at same
    split at same
    · rename_i name span keyed
      exact ⟨name, span, keyed, AttributeItem.named.inj same⟩
    · cases same
  · rintro ⟨name, span, keyed, rfl⟩
    simp [loweredEntry, keyed]

/-- The child that a value describes is a text where the value is a string and not empty. -/
theorem Expression.loweredChild?_eq_text_iff {text : LiteralText} :
    value.loweredChild? = some (.text text) ↔
      value = ⟨.string text.value, text.span⟩ ∧ text.value ≠ "" := by
  obtain ⟨form, span⟩ := value
  constructor
  · intro made
    unfold loweredChild? at made
    split at made
    · rename_i isString
      simp only [Option.ite_none_left_eq_some, String.isEmpty_iff, Option.some.injEq,
        Child.text.injEq] at made isString
      obtain ⟨nonempty, rfl⟩ := made
      exact ⟨congrArg (Expression.mk · span) isString, nonempty⟩
    · split at made <;> cases made
  · rintro ⟨⟨⟩, nonempty⟩
    simp [loweredChild?, nonempty]

/-- A described element keeps the rules when the strings that describe it are right. -/
theorem keepsRules_loweredElement_iff :
    (loweredElement shape items span).KeepsRules ↔ HasRightStrings items shape := by
  constructor
  · rintro ⟨-, fragment, attributes, texts⟩
    refine ⟨fun unnamed => List.map_eq_nil_iff.mp (fragment unnamed), ?_, ?_⟩
    · intro item member name place keyed
      have made := ArrayItem.loweredEntry_eq_named_iff.mpr ⟨name, place, keyed, rfl⟩
      exact attributes ⟨name, item.value.lower, item.span⟩ (List.mem_map.mpr ⟨item, member, made⟩)
    · intro item member text place isString
      refine or_iff_not_imp_left.mpr fun nonempty => texts ⟨text, place⟩ ?_
      have made : item.value.loweredChild? = some (.text ⟨text, place⟩) :=
        Expression.loweredChild?_eq_text_iff.mpr ⟨isString, nonempty⟩
      exact List.mem_filterMap.mpr ⟨item, member, made⟩
  · rintro ⟨fragment, attributes, texts⟩
    refine ⟨.inr rfl, fun unnamed => List.map_eq_nil_iff.mpr (fragment unnamed), ?_, ?_⟩
    · intro entry member
      obtain ⟨item, listed, made⟩ := List.mem_map.mp member
      obtain ⟨name, place, keyed, rfl⟩ := ArrayItem.loweredEntry_eq_named_iff.mp made
      exact attributes item listed name place keyed
    · intro text member
      obtain ⟨item, listed, made⟩ := List.mem_filterMap.mp member
      obtain ⟨isString, nonempty⟩ := Expression.loweredChild?_eq_text_iff.mp made
      exact (texts item listed _ _ isString).resolve_left nonempty

namespace Expression

/--
In what lowering makes of an expression that was read, every element closes itself.  All elements in
it keep the rules exactly when every array literal that becomes an element has the right strings.
-/
theorem keepsRules_lower_iff_of_ofText
    {text : String}
    {budget : Nat}
    (read : ofText text budget = .ok expression) :
    expression.lower.All Element.ClosesItself ∧
      (expression.lower.All Element.KeepsRules ↔
        expression.AllTurned fun items shape _ => HasRightStrings items shape) := by
  obtain ⟨stop, behind, reads, -⟩ := reads_of_ofText read
  have rules : expression.All Element.KeepsRules :=
    reads.all (fun _ _ _ _ _ => keepsRules_of_reads) (Cursor.le_refl _)
  constructor
  · have closes : expression.All Element.ClosesItself :=
      fun inner included => (rules inner included).closing
    refine (all_lower_iff (fun _ closes => closes.map lower) closes).mpr ?_
    exact fun items shape span _ _ => .inr rfl
  · rw [all_lower_iff (fun _ rules => rules.map lower) rules]
    simp only [keepsRules_loweredElement_iff]

/-- An array literal with a name, no attributes and one child describes an element. -/
theorem exists_ofText_onlyChild
    {text : List Char}
    {unpack : Bool}
    (entry : IsEntry true text ⟨none, value, unpack, default⟩) :
    ∃ budget name noAttributes child place span,
      ofText (String.ofList ("[ 'div' , [ ] , ".toList ++ spaced [text, [']']])) budget =
          .ok ⟨.array [name, noAttributes, ⟨none, child, unpack, place⟩], span⟩ ∧
        IsElementArray [name, noAttributes, ⟨none, child, unpack, place⟩] ⟨"div", []⟩ ∧
        attributeItems [name, noAttributes, ⟨none, child, unpack, place⟩] = [] ∧
        child.withoutSpans = value.withoutSpans := by
  have string : IsEntry true (singleQuoted "div".toList)
      ⟨none, ⟨.string "div", default⟩, false, default⟩ := by
    have spells := spells_singleQuoted "div".toList
    have operand : IsOperand _ ⟨.string "div", default⟩ := spells.isOperand rfl
    exact (operand.leads.mono (Nat.zero_le _)).isEntry
  have empty : IsEntry true (spaced [Symbol.leftBracket.text, listed .rightBracket []])
      ⟨none, ⟨.array [], default⟩, false, default⟩ :=
    ((@isOperand_array default _ _ .nil).leads.mono (Nat.zero_le _)).isEntry
  obtain ⟨budget, items, span, read, same⟩ := exists_ofText_array
    (.cons string (.cons empty (.cons entry .nil)))
  simp only [List.map_cons, List.map_nil, ArrayItem.withoutSpans_mk, Option.map_none,
    withoutSpans_mk, ExpressionForm.withoutSpans_string, ExpressionForm.withoutSpans_array] at same
  obtain ⟨first, _, rfl, named, behind⟩ := List.map_eq_cons_iff.mp same
  obtain ⟨second, _, rfl, attributed, others⟩ := List.map_eq_cons_iff.mp behind
  obtain ⟨third, rfl, filled⟩ := List.map_eq_singleton_iff.mp others
  obtain ⟨name, _, rfl, isName⟩ := ArrayItem.exists_of_withoutSpans_eq named
  obtain ⟨attributes, _, rfl, isArray⟩ := ArrayItem.exists_of_withoutSpans_eq attributed
  obtain ⟨child, place, rfl, isChild⟩ := ArrayItem.exists_of_withoutSpans_eq filled
  obtain ⟨_, rfl⟩ := exists_of_withoutSpans_eq_string isName
  obtain ⟨listed, _, rfl, noItems⟩ := exists_of_withoutSpans_eq_array isArray
  obtain rfl := List.map_eq_nil_iff.mp noItems
  exact ⟨budget, _, _, child, place, span, read, .attributed rfl, rfl, isChild⟩

/-- An array literal whose only child is a blank string. -/
theorem exists_ofText_blankChild :
    ∃ budget name noAttributes child span,
      ofText "[ 'div' , [ ] , ' ' ]" budget = .ok ⟨.array [name, noAttributes, child], span⟩ ∧
        IsElementArray [name, noAttributes, child] ⟨"div", []⟩ ∧
        ∃ place, child.value = ⟨.string " ", place⟩ := by
  have spells := spells_singleQuoted [' ']
  have operand : IsOperand _ ⟨.string " ", default⟩ := spells.isOperand rfl
  have entry : IsEntry true _ ⟨none, _, false, default⟩ :=
    (operand.leads.mono (Nat.zero_le _)).isEntry
  obtain ⟨budget, name, noAttributes, child, place, span, read, described, -, same⟩ :=
    exists_ofText_onlyChild entry
  exact ⟨budget, name, noAttributes, _, span, read, described,
    exists_of_withoutSpans_eq_string same⟩

/-- What is read from an array literal with a blank child. -/
theorem keepsRules_lower_iff_of_ofText_blankChild :
    ∃ budget expression, ofText "[ 'div' , [ ] , ' ' ]" budget = .ok expression ∧
      expression.lower.All Element.ClosesItself ∧
      (expression.lower.All Element.KeepsRules ↔
        expression.AllTurned fun items shape _ => HasRightStrings items shape) := by
  obtain ⟨budget, name, noAttributes, child, span, read, -⟩ := exists_ofText_blankChild
  exact ⟨budget, _, read, keepsRules_lower_iff_of_ofText read⟩

/-- A blank string becomes a blank text. -/
theorem not_keepsRules_lower_blankChild :
    ∃ budget expression, ofText "[ 'div' , [ ] , ' ' ]" budget = .ok expression ∧
      ∃ element span, expression.lower = ⟨.markup element, span⟩ ∧
        (∃ text, .text text ∈ element.children ∧ text.value = " ") ∧
        ¬expression.lower.All Element.KeepsRules := by
  obtain ⟨budget, name, noAttributes, child, span, read, described, place, filled⟩ :=
    exists_ofText_blankChild
  have kept : .text ⟨" ", place⟩ ∈
      (loweredElement ⟨"div", []⟩ [name, noAttributes, child] span).children := by
    refine List.mem_filterMap.mpr ⟨child, List.mem_singleton_self child, ?_⟩
    exact loweredChild?_eq_text_iff.mpr ⟨filled, (by decide : " " ≠ "")⟩
  refine ⟨budget, _, read, _, span, lower_array described, ⟨_, kept, rfl⟩, fun all => ?_⟩
  rw [lower_array described] at all
  have blank : Blank " ".toList := List.forall_mem_singleton.mpr rfl
  exact (all _ (.markup .self)).texts _ kept blank

end Expression

end EmbeddedMarkup
