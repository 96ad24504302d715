import EmbeddedMarkup.Lowering
import EmbeddedMarkup.Proofs.Tree.Parts

/-!
# What lowering makes of each form

An array literal whose items describe an element becomes that element: items of the attributes
become entries of the header and further items become children, each of them lowered.  Every other
form is kept with its parts lowered, apart from the class of a static access, which stays as it is.
-/

namespace EmbeddedMarkup

variable {items : List (ArrayItem Expression)} {shape : MarkupShape} {expression : Expression}
  {form : ExpressionForm Expression} {span : Span}

/-! ## Shapes -/

/-- The items that the second item of an array literal gives as attributes. -/
def attributeItems : List (ArrayItem Expression) → List (ArrayItem Expression)
  | _ :: ⟨_, ⟨.array attributes, _⟩, _, _⟩ :: _ => attributes
  | _ => []

/-- The items of an array literal, taken apart as those of an element. -/
inductive IsElementArray : List (ArrayItem Expression) → MarkupShape → Prop
  | named {key : Option Expression} {name : String} {nameSpan span : Span} :
      IsElementArray [⟨key, ⟨.string name, nameSpan⟩, false, span⟩] ⟨name, []⟩
  | attributed
      {key key' : Option Expression}
      {name : String}
      {nameSpan span span' span'' : Span}
      {attributes children : List (ArrayItem Expression)}
      {unpack : Bool}
      {keys : List (Option String)} :
      attributes.mapM attributeKey? = some keys →
      IsElementArray
        (⟨key, ⟨.string name, nameSpan⟩, false, span⟩ ::
          ⟨key', ⟨.array attributes, span'⟩, unpack, span''⟩ :: children)
        ⟨name, keys⟩

/-- An array literal has a shape when its items are those of an element. -/
theorem markupShape?_eq_some_iff :
    markupShape? items = some shape ↔ IsElementArray items shape := by
  constructor
  · intro described
    match items, described with
    | ⟨key, ⟨.string name, nameSpan⟩, unpack, span⟩ :: rest, described =>
        simp only [markupShape?, Option.ite_none_left_eq_some, Option.map_eq_some_iff,
          Bool.not_eq_true] at described
        obtain ⟨rfl, keys, found, rfl⟩ := described
        match rest, found with
        | [], found =>
            cases found
            exact .named
        | ⟨_, ⟨.array attributes, _⟩, _, _⟩ :: children, found => exact .attributed found
  · intro described
    cases described with
    | named => rfl
    | attributed found => simp [markupShape?, attributeKeys?, found]

/-- The items of an array literal are those of an element. -/
theorem isMarkupArray_iff : isMarkupArray items = true ↔ ∃ shape, IsElementArray items shape := by
  simp only [isMarkupArray, Option.isSome_iff_exists, markupShape?_eq_some_iff]

/-- The expression is an array literal that describes an element. -/
def Expression.DescribesElement (expression : Expression) : Prop :=
  ∃ items, expression.form = .array items ∧ isMarkupArray items = true

/-! ## What is visited -/

namespace ExpressionForm

/-- The expressions in a form that lowering visits: all of them but the class of a static access. -/
def visited {ε : Type} : ExpressionForm ε → List ε
  | .staticCall _ _ arguments => arguments.map Argument.value
  | .classConstant _ _ => []
  | form => form.expressions

/-- Change the expressions in a form that lowering visits. -/
def mapVisited {ε : Type} (f : ε → ε) : ExpressionForm ε → ExpressionForm ε
  | .staticCall owner name arguments => .staticCall owner name (arguments.map (·.map f))
  | .classConstant owner name => .classConstant owner name
  | form => form.map f

theorem visited_subset_expressions : form.visited ⊆ form.expressions := by
  cases form with
  | staticCall owner name arguments => exact List.subset_cons_self _ _
  | classConstant owner name => exact List.nil_subset _
  | _ => exact List.Subset.refl _

/-- What is visited in a form that was changed there is what was visited before, changed. -/
theorem visited_mapVisited {f : Expression → Expression} :
    (form.mapVisited f).visited = form.visited.map f := by
  have all := form.expressions_map (f := f)
  cases form with
  | staticCall owner name arguments =>
      simp [mapVisited, visited, Argument.map, Function.comp_def]
  | classConstant owner name => rfl
  | _ => exact all

end ExpressionForm

/-! ## Lowered parts -/

/-- The entry of a header that an item of attributes describes. -/
def ArrayItem.loweredEntry (item : ArrayItem Expression) : AttributeItem Expression :=
  match item.key with
  | some ⟨.string name, _⟩ => .named ⟨name, item.value.lower, item.span⟩
  | _ => .spread ⟨item.value.lower, item.span⟩

theorem ArrayItem.expression_loweredEntry (item : ArrayItem Expression) :
    item.loweredEntry.expression = item.value.lower := by
  unfold loweredEntry
  split <;> rfl

/-- The child that a further item of an element describes, if it describes one. -/
def Expression.loweredChild? (value : Expression) : Option (Child Expression) :=
  match value.form with
  | .string text => if text.isEmpty then none else some (.text ⟨text, value.span⟩)
  | _ =>
      match value.lower.form with
      | .markup element => some (.element element)
      | _ => some (.hole ⟨value.lower, value.span⟩)

/-- A value that is no string becomes the child that it is lowered to. -/
theorem Expression.loweredChild?_of_ne_string
    {value : Expression}
    (other : ∀ text, value.form ≠ .string text) :
    value.loweredChild? = match value.lower.form with
      | .markup element => some (.element element)
      | _ => some (.hole ⟨value.lower, value.span⟩) := by
  unfold loweredChild?
  split
  · exact absurd ‹_› (other _)
  · rfl

/-- The element that the items of an array literal describe. -/
def loweredElement
    (shape : MarkupShape)
    (items : List (ArrayItem Expression))
    (span : Span) :
    Element Expression where
  name := shape.name
  attributes := (attributeItems items).map ArrayItem.loweredEntry
  children := (items.drop 2).filterMap fun item => item.value.loweredChild?
  closingName := some shape.name
  span := span

/-- The values that entries and children of a described element are made of. -/
def elementValues (items : List (ArrayItem Expression)) : List Expression :=
  (attributeItems items ++ items.drop 2).map ArrayItem.value

/-- What an element is made of stands in the array literal that describes it. -/
theorem contains_of_mem_elementValues
    {value : Expression}
    (member : value ∈ elementValues items) :
    ∃ part ∈ (ExpressionForm.array items).expressions, part.Contains value := by
  have here {item : ArrayItem Expression} (listed : item ∈ items) :
      item.value ∈ (ExpressionForm.array items).expressions :=
    List.mem_flatMap.mpr ⟨item, listed, List.mem_append_right _ List.mem_cons_self⟩
  simp only [elementValues, List.mem_map, List.mem_append] at member
  obtain ⟨item, entry | further, rfl⟩ := member
  · unfold attributeItems at entry
    split at entry
    · rename_i first key attributes span unpack span' children
      have inside : item.value ∈ (ExpressionForm.array attributes).expressions :=
        List.mem_flatMap.mpr ⟨item, entry, List.mem_append_right _ List.mem_cons_self⟩
      exact ⟨_, here (List.mem_cons_of_mem _ List.mem_cons_self), .part inside .self⟩
    · cases entry
  · exact ⟨_, here (List.mem_of_mem_drop further), .self⟩

/--
What holds of an array literal that describes an element if it holds of the values that the element
is made of, and of any other expression if it holds of the parts that are visited, holds of all
expressions.
-/
theorem Expression.induct_lowering
    {Holds : Expression → Prop}
    (turned : ∀ items shape span, IsElementArray items shape →
      (∀ value ∈ elementValues items, Holds value) → Holds ⟨.array items, span⟩)
    (plain : ∀ form span, ¬DescribesElement ⟨form, span⟩ →
      (∀ part ∈ form.visited, Holds part) → Holds ⟨form, span⟩)
    (expression : Expression) :
    Holds expression := by
  induction expression using induct_contained with | step whole inside
  obtain ⟨form, span⟩ := whole
  by_cases describes : DescribesElement ⟨form, span⟩
  · obtain ⟨items, rfl, shaped⟩ := describes
    obtain ⟨shape, described⟩ := isMarkupArray_iff.mp shaped
    refine turned items shape span described fun value member => ?_
    obtain ⟨part, listed, contains⟩ := contains_of_mem_elementValues member
    exact inside part listed value contains
  · refine plain form span describes fun part member => ?_
    exact inside part (ExpressionForm.visited_subset_expressions member) part .self

/-! ## Equations -/

mutual

/-- An element whose expressions a function leaves alone is left alone. -/
theorem Element.map_eq_self {f : Expression → Expression} : (element : Element Expression) →
    (∀ part ∈ element.expressions, f part = part) → element.map f = element
  | ⟨name, items, children, closingName, span⟩ => by
      intro same
      simp only [Element.expressions, List.mem_append, List.mem_map] at same
      have inside := Child.mapAll_eq_self children fun part member => same part (.inr member)
      have header : items.map (·.map f) = items := by
        refine (List.map_congr_left fun item member => ?_).trans (List.map_id items)
        have here := same item.expression (.inl ⟨item, member, rfl⟩)
        cases item <;> simp_all [AttributeItem.map, AttributeItem.expression]
      rw [Element.map, inside, header]

theorem Child.map_eq_self {f : Expression → Expression} : (child : Child Expression) →
    (∀ part ∈ child.expressions, f part = part) → child.map f = child
  | .element element => by
      intro same
      rw [Child.map, Element.map_eq_self element same]
  | .hole hole => by
      intro same
      rw [Child.map, same hole.expression List.mem_cons_self]
  | .text _ | .comment _ => fun _ => rfl

theorem Child.mapAll_eq_self {f : Expression → Expression} : (children : List (Child Expression)) →
    (∀ part ∈ Child.expressionsOfAll children, f part = part) →
      Child.mapAll f children = children
  | [] => fun _ => rfl
  | child :: children => by
      intro same
      rw [Child.expressionsOfAll, List.forall_mem_append] at same
      rw [Child.mapAll, Child.map_eq_self child same.1, Child.mapAll_eq_self children same.2]

end

/-- An argument whose value a function leaves alone is left alone. -/
theorem Argument.map_map_eq_self
    {f : Expression → Expression}
    {arguments : List (Argument Expression)}
    (same : ∀ part ∈ arguments.map Argument.value, f part = part) :
    arguments.map (·.map f) = arguments := by
  refine (List.map_congr_left fun argument member => ?_).trans (List.map_id arguments)
  rw [Argument.map, same _ (List.mem_map_of_mem member)]
  rfl

/-- An item whose key and value a function leaves alone is left alone. -/
theorem ArrayItem.map_map_eq_self
    {f : Expression → Expression}
    (same : ∀ part ∈ items.flatMap ArrayItem.parts, f part = part) :
    items.map (·.map f) = items := by
  refine (List.map_congr_left fun item member => ?_).trans (List.map_id items)
  have here (part : Expression) (inside : part ∈ item.parts) : f part = part :=
    same part (List.mem_flatMap.mpr ⟨item, member, inside⟩)
  obtain ⟨key, value, unpack, span⟩ := item
  cases key <;> simp_all [ArrayItem.map, ArrayItem.parts]

/-- A form whose expressions a function leaves alone is left alone. -/
theorem ExpressionForm.map_eq_self
    {f : Expression → Expression}
    (form : ExpressionForm Expression)
    (same : ∀ part ∈ form.expressions, f part = part) :
    form.map f = form := by
  cases form with
  | array items => rw [map, ArrayItem.map_map_eq_self same]
  | methodCall object name arguments nullsafe =>
      obtain ⟨here, behind⟩ := List.forall_mem_cons.mp same
      rw [map, here, Argument.map_map_eq_self behind]
  | staticCall owner name arguments =>
      obtain ⟨here, behind⟩ := List.forall_mem_cons.mp same
      rw [map, here, Argument.map_map_eq_self behind]
  | call callee arguments =>
      obtain ⟨here, behind⟩ := List.forall_mem_cons.mp same
      rw [map, here, Argument.map_map_eq_self behind]
  | markup element => rw [map, element.map_eq_self same]
  | entry collection index => cases index <;> simp_all [map, expressions, parts]
  | ternary condition ifTrue ifFalse => cases ifTrue <;> simp_all [map, expressions, parts]
  | _ => simp_all [map, expressions, parts]

/-- A form is left alone where a function leaves alone what is visited in it. -/
theorem ExpressionForm.mapVisited_eq_self
    {f : Expression → Expression}
    (same : ∀ part ∈ form.visited, f part = part) :
    form.mapVisited f = form := by
  have all := form.map_eq_self (f := f)
  cases form with
  | staticCall owner name arguments => rw [mapVisited, Argument.map_map_eq_self same]
  | classConstant owner name => rfl
  | _ => exact all same

namespace Expression

/-- An expression with what lowering keeps of it. -/
def lowered (expression : Expression) : Lowered :=
  expression.fold Lowered.layer

theorem lowered_mk (form : ExpressionForm Expression) (span : Span) :
    lowered ⟨form, span⟩ = Lowered.layer (form.map lowered) span :=
  fold_mk Lowered.layer form span

/-- Lowering keeps the expression that it started from. -/
@[simp] theorem before_lowered (expression : Expression) :
    expression.lowered.before = expression := by
  have step : Inherited fun expression => expression.lowered.before = expression := by
    intro form span same
    have kept : (form.map lowered).map Lowered.before = form := by
      rw [ExpressionForm.map_map_eq same, ExpressionForm.map_eq_self form fun _ _ => rfl]
    rw [lowered_mk]
    cases form <;> exact congrArg (Expression.mk · span) kept
  exact induct step expression

/-- The parts of a form are lowered before the form is. -/
theorem map_before_map_lowered (form : ExpressionForm Expression) :
    (form.map lowered).map Lowered.before = form := by
  rw [ExpressionForm.map_map_eq fun part _ => part.before_lowered,
    ExpressionForm.map_eq_self form fun _ _ => rfl]

theorem map_after_map_lowered (form : ExpressionForm Expression) :
    (form.map lowered).map Lowered.after = form.map lower :=
  ExpressionForm.map_map_eq fun _ _ => rfl

/-- The items of an array literal are kept, each of them lowered. -/
theorem items_lowered (items : List (ArrayItem Expression)) (span : Span) :
    (lowered ⟨.array items, span⟩).items = items.map (·.map lower) := by
  have after := map_after_map_lowered (.array items)
  rw [lowered_mk]
  exact ExpressionForm.array.inj after

/-- The child of an item depends on its value and on what lowering makes of it. -/
theorem child?_lowered (value : Expression) : value.lowered.child? = value.loweredChild? := by
  rw [Lowered.child?, before_lowered]
  rfl

/-- Each key names the entry that its item describes. -/
theorem zipWith_attributeItem
    {attributes : List (ArrayItem Expression)}
    {keys : List (Option String)}
    (found : attributes.mapM attributeKey? = some keys) :
    List.zipWith Lowered.attributeItem keys (attributes.map (·.map lower)) =
      attributes.map ArrayItem.loweredEntry := by
  induction attributes generalizing keys with
  | nil => cases keys <;> rfl
  | cons item attributes ih =>
      simp only [List.mapM_cons, Option.bind_eq_bind, Option.bind_eq_some_iff, Option.pure_def,
        Option.some.injEq] at found
      obtain ⟨key, here, keys, behind, rfl⟩ := found
      rw [List.map_cons, List.zipWith_cons_cons, ih behind, List.map_cons]
      refine congrArg (· :: attributes.map ArrayItem.loweredEntry) ?_
      unfold attributeKey? at here
      unfold ArrayItem.loweredEntry
      split at here <;> cases here <;> rename_i given <;> rw [given] <;> rfl

/-- An array literal of an element becomes this element. -/
theorem lower_array (described : IsElementArray items shape) :
    lower ⟨.array items, span⟩ = ⟨.markup (loweredElement shape items span), span⟩ := by
  have shaped := markupShape?_eq_some_iff.mpr described
  have before := ExpressionForm.array.inj (map_before_map_lowered (.array items))
  change (lowered _).after = _
  rw [lowered_mk]
  simp only [ExpressionForm.map]
  simp only [Lowered.layer, before, shaped]
  refine congrArg (fun element => Expression.mk (.markup element) span) ?_
  have children : ((items.map (·.map lowered)).drop 2).filterMap (fun item => item.value.child?) =
      (items.drop 2).filterMap fun item => item.value.loweredChild? := by
    rw [← List.map_drop, List.filterMap_map]
    exact congrArg (List.filterMap · _) (funext fun item => item.value.child?_lowered)
  rw [Lowered.element, loweredElement, children]
  cases described with
  | named => rfl
  | @attributed _ _ _ _ _ span' _ attributes _ _ _ found =>
      have entries := zipWith_attributeItem found
      rw [← items_lowered attributes span'] at entries
      exact congrArg (fun attributes => Element.mk _ attributes _ _ _) entries

/-- Everything else is kept, and what lowering visits in it is lowered. -/
theorem lower_of_not_describesElement (plain : ¬DescribesElement ⟨form, span⟩) :
    lower ⟨form, span⟩ = ⟨form.mapVisited lower, span⟩ := by
  have before := map_before_map_lowered form
  have after := map_after_map_lowered form
  change (lowered _).after = _
  rw [lowered_mk]
  cases form with
  | array items =>
      have none_described : markupShape? items = none := by
        rw [← Option.not_isSome_iff_eq_none]
        exact fun described => plain ⟨items, rfl, described⟩
      have before := ExpressionForm.array.inj before
      simp only [ExpressionForm.map, Lowered.layer] at before after ⊢
      rw [before, none_described]
      exact congrArg (Expression.mk · span) after
  | staticCall owner name arguments =>
      simp only [ExpressionForm.map, ExpressionForm.staticCall.injEq] at after
      simp only [ExpressionForm.map, Lowered.layer, before_lowered, after]
      rfl
  | classConstant owner name =>
      simp only [ExpressionForm.map, Lowered.layer, before_lowered]
      rfl
  | _ => exact congrArg (Expression.mk · span) after

/-- Lowering leaves the span of an expression alone. -/
@[simp] theorem span_lower (expression : Expression) : expression.lower.span = expression.span := by
  obtain ⟨form, span⟩ := expression
  by_cases describes : DescribesElement ⟨form, span⟩
  · obtain ⟨items, rfl, shaped⟩ := describes
    obtain ⟨shape, described⟩ := isMarkupArray_iff.mp shaped
    rw [lower_array described]
  · rw [lower_of_not_describesElement describes]

/-! ## What lowering turns to -/

/--
Lowering turns to `inner`: it is the expression, a value that a described element is made of, or
visited in anything else.
-/
inductive TurnsTo : Expression → Expression → Prop
  | self {expression : Expression} : TurnsTo expression expression
  | value {items : List (ArrayItem Expression)} {shape : MarkupShape} {span : Span}
      {value inner : Expression} :
      IsElementArray items shape →
      value ∈ elementValues items →
      TurnsTo value inner →
      TurnsTo ⟨.array items, span⟩ inner
  | part {whole part inner : Expression} :
      ¬whole.DescribesElement →
      part ∈ whole.form.visited →
      TurnsTo part inner →
      TurnsTo whole inner

/-- Every array literal in the expression that becomes an element has the property. -/
def AllTurned
    (Right : List (ArrayItem Expression) → MarkupShape → Span → Prop)
    (expression : Expression) :
    Prop :=
  ∀ items shape span, expression.TurnsTo ⟨.array items, span⟩ → IsElementArray items shape →
    Right items shape span

variable {Right : List (ArrayItem Expression) → MarkupShape → Span → Prop}

/-- An array literal of an element becomes one, and so do those that its values turn to. -/
theorem allTurned_array_iff (described : IsElementArray items shape) :
    AllTurned Right ⟨.array items, span⟩ ↔
      Right items shape span ∧ ∀ value ∈ elementValues items, value.AllTurned Right := by
  constructor
  · intro turned
    exact ⟨turned items shape span .self described, fun value member inner shape span turns =>
      turned inner shape span (.value described member turns)⟩
  · rintro ⟨here, inside⟩ inner shape' place turns described'
    cases turns with
    | self =>
        obtain rfl : shape = shape' := Option.some.inj
          ((markupShape?_eq_some_iff.mpr described).symm.trans
            (markupShape?_eq_some_iff.mpr described'))
        exact here
    | value _ member turns => exact inside _ member inner shape' place turns described'
    | part plain => exact absurd ⟨items, rfl, isMarkupArray_iff.mpr ⟨shape, described⟩⟩ plain

/-- In anything else, those become elements that lowering turns to in what it visits. -/
theorem allTurned_iff_of_not_describesElement (plain : ¬expression.DescribesElement) :
    expression.AllTurned Right ↔ ∀ part ∈ expression.form.visited, part.AllTurned Right := by
  constructor
  · intro turned part member items shape span turns
    exact turned items shape span (.part plain member turns)
  · intro inside items shape span turns described
    cases turns with
    | self => exact absurd ⟨items, rfl, isMarkupArray_iff.mpr ⟨shape, described⟩⟩ plain
    | value described' => exact absurd ⟨_, rfl, isMarkupArray_iff.mpr ⟨_, described'⟩⟩ plain
    | part _ member turns => exact inside _ member items shape span turns described

end Expression

end EmbeddedMarkup
