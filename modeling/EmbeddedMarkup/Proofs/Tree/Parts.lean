import EmbeddedMarkup.Proofs.Tree.Inclusion
import EmbeddedMarkup.Proofs.Tree.Spans

/-!
# The parts of a tree

The parts of an expression are the expressions that its form is made of, and if it is markup, those
in the header and in the content of its element, at any depth of elements.  Changing parts and
leaving out spans is told by them, and a property that expressions inherit from their parts holds
of all expressions.
-/

namespace EmbeddedMarkup

section Layers

variable {ε δ : Type}

mutual

/-- The expressions in the header and in the content of an element. -/
def Element.expressions : Element ε → List ε
  | ⟨_, items, children, _, _⟩ =>
      items.map AttributeItem.expression ++ Child.expressionsOfAll children

/-- The expressions in a child. -/
def Child.expressions : Child ε → List ε
  | .element element => element.expressions
  | .hole hole => [hole.expression]
  | .text _ | .comment _ => []

/-- The expressions in children. -/
def Child.expressionsOfAll : List (Child ε) → List ε
  | [] => []
  | child :: children => child.expressions ++ Child.expressionsOfAll children

end

theorem Child.expressionsOfAll_eq (children : List (Child ε)) :
    Child.expressionsOfAll children = children.flatMap Child.expressions := by
  induction children with
  | nil => rfl
  | cons child children ih => rw [Child.expressionsOfAll, List.flatMap_cons, ih]

/-- The expressions that a form is made of, those in markup too. -/
def ExpressionForm.expressions : ExpressionForm ε → List ε
  | .markup element => element.expressions
  | form => form.parts

variable {f : ε → δ}

@[simp] theorem ArrayItem.parts_map (item : ArrayItem ε) :
    (item.map f).parts = item.parts.map f := by
  obtain ⟨key, value, unpack, span⟩ := item
  cases key <;> rfl

@[simp] theorem AttributeItem.map_named (item : Attribute ε) :
    (AttributeItem.named item).map f = .named ⟨item.name, f item.value, item.span⟩ := rfl

@[simp] theorem AttributeItem.map_spread (item : Spread ε) :
    (AttributeItem.spread item).map f = .spread ⟨f item.expression, item.span⟩ := rfl

@[simp] theorem AttributeItem.expression_map (item : AttributeItem ε) :
    (item.map f).expression = f item.expression := by
  cases item <;> rfl

mutual

/-- The expressions of a changed element are the changed ones. -/
theorem Element.expressions_map : (element : Element ε) →
    (element.map f).expressions = element.expressions.map f
  | ⟨name, items, children, closingName, span⟩ => by
      have inside := Child.expressionsOfAll_map children
      simp [Element.map, Element.expressions, Function.comp_def, inside]

theorem Child.expressions_map : (child : Child ε) →
    (child.map f).expressions = child.expressions.map f
  | .element element => Element.expressions_map element
  | .hole _ | .text _ | .comment _ => rfl

theorem Child.expressionsOfAll_map : (children : List (Child ε)) →
    Child.expressionsOfAll (Child.mapAll f children) = (Child.expressionsOfAll children).map f
  | [] => rfl
  | child :: children => by
      rw [Child.mapAll, Child.expressionsOfAll, Child.expressionsOfAll, List.map_append,
        Child.expressions_map child, Child.expressionsOfAll_map children]

end

/-- The expressions of a changed form are the changed ones. -/
theorem ExpressionForm.expressions_map (form : ExpressionForm ε) :
    (form.map f).expressions = form.expressions.map f := by
  cases form with
  | entry collection index => cases index <;> rfl
  | ternary condition ifTrue ifFalse => cases ifTrue <;> rfl
  | markup element => exact element.expressions_map
  | _ =>
      simp [map, expressions, parts, List.flatMap_map, List.map_flatMap, Argument.map,
        Function.comp_def]

@[simp] theorem ArrayItem.parts_unspanned (item : ArrayItem ε) :
    item.unspanned.parts = item.parts := rfl

@[simp] theorem AttributeItem.expression_unspanned (item : AttributeItem ε) :
    item.unspanned.expression = item.expression := by
  cases item <;> rfl

mutual

theorem Element.expressions_unspanned : (element : Element ε) →
    element.unspanned.expressions = element.expressions
  | ⟨name, items, children, closingName, span⟩ => by
      have inside := Child.expressionsOfAll_unspanned children
      simp [Element.unspanned, Element.expressions, Function.comp_def, inside]

theorem Child.expressions_unspanned : (child : Child ε) →
    child.unspanned.expressions = child.expressions
  | .element element => Element.expressions_unspanned element
  | .hole _ | .text _ | .comment _ => rfl

theorem Child.expressionsOfAll_unspanned : (children : List (Child ε)) →
    Child.expressionsOfAll (Child.unspannedAll children) = Child.expressionsOfAll children
  | [] => rfl
  | child :: children => by
      rw [Child.unspannedAll, Child.expressionsOfAll, Child.expressionsOfAll,
        Child.expressions_unspanned child, Child.expressionsOfAll_unspanned children]

end

/-- Spans hold no expressions. -/
theorem ExpressionForm.expressions_unspanned (form : ExpressionForm ε) :
    form.unspanned.expressions = form.expressions := by
  cases form with
  | markup element => exact element.expressions_unspanned
  | _ => simp [unspanned, expressions, parts, List.flatMap_map, Argument.unspanned,
      Function.comp_def]

variable {γ : Type} {h : δ → γ} {both : ε → γ}

theorem ArrayItem.map_map_eq
    {item : ArrayItem ε}
    (same : ∀ part ∈ item.parts, h (f part) = both part) :
    (item.map f).map h = item.map both := by
  obtain ⟨key, value, unpack, span⟩ := item
  cases key <;> simp_all [ArrayItem.map, parts]

theorem AttributeItem.map_map_eq
    {item : AttributeItem ε}
    (same : h (f item.expression) = both item.expression) :
    (item.map f).map h = item.map both := by
  cases item <;> simp_all [AttributeItem.map, expression]

mutual

/-- An element that is changed twice is changed as its expressions are. -/
theorem Element.map_map_eq : (element : Element ε) →
    (∀ part ∈ element.expressions, h (f part) = both part) →
      (element.map f).map h = element.map both
  | ⟨name, items, children, closingName, span⟩ => by
      intro same
      simp only [Element.expressions, List.mem_append, List.mem_map] at same
      have inside := Child.mapAll_mapAll_eq children fun part member => same part (.inr member)
      have header : items.map (fun item => (item.map f).map h) = items.map (·.map both) :=
        List.map_congr_left fun item member =>
          AttributeItem.map_map_eq (same _ (.inl ⟨item, member, rfl⟩))
      simp [Element.map, Function.comp_def, inside, header]

theorem Child.map_map_eq : (child : Child ε) →
    (∀ part ∈ child.expressions, h (f part) = both part) → (child.map f).map h = child.map both
  | .element element => by
      intro same
      rw [Child.map, Child.map, Child.map, Element.map_map_eq element same]
  | .hole hole => by
      intro same
      rw [Child.map, Child.map, Child.map, same hole.expression List.mem_cons_self]
  | .text _ | .comment _ => fun _ => rfl

theorem Child.mapAll_mapAll_eq : (children : List (Child ε)) →
    (∀ part ∈ Child.expressionsOfAll children, h (f part) = both part) →
      Child.mapAll h (Child.mapAll f children) = Child.mapAll both children
  | [] => fun _ => rfl
  | child :: children => by
      intro same
      rw [Child.expressionsOfAll, List.forall_mem_append] at same
      rw [Child.mapAll, Child.mapAll, Child.mapAll, Child.map_map_eq child same.1,
        Child.mapAll_mapAll_eq children same.2]

end

/-- A form that is changed twice is changed as its expressions are. -/
theorem ExpressionForm.map_map_eq
    {form : ExpressionForm ε}
    (same : ∀ part ∈ form.expressions, h (f part) = both part) :
    (form.map f).map h = form.map both := by
  have arguments_eq {arguments : List (Argument ε)}
      (same : ∀ part ∈ arguments.map Argument.value, h (f part) = both part) :
      arguments.map (fun argument => (argument.map f).map h) = arguments.map (·.map both) := by
    refine List.map_congr_left fun argument member => ?_
    rw [Argument.map, Argument.map, Argument.map, same _ (List.mem_map_of_mem member)]
  cases form with
  | array items =>
      have items_eq : items.map (fun item => (item.map f).map h) = items.map (·.map both) :=
        List.map_congr_left fun item member =>
          ArrayItem.map_map_eq fun part inside =>
            same part (List.mem_flatMap.mpr ⟨item, member, inside⟩)
      simp [map, Function.comp_def, items_eq]
  | markup element => rw [map, map, map, element.map_map_eq same]
  | methodCall object name arguments nullsafe =>
      obtain ⟨here, behind⟩ := List.forall_mem_cons.mp same
      simp [map, Function.comp_def, here, arguments_eq behind]
  | staticCall owner name arguments =>
      obtain ⟨here, behind⟩ := List.forall_mem_cons.mp same
      simp [map, Function.comp_def, here, arguments_eq behind]
  | call callee arguments =>
      obtain ⟨here, behind⟩ := List.forall_mem_cons.mp same
      simp [map, Function.comp_def, here, arguments_eq behind]
  | entry collection index => cases index <;> simp_all [map, expressions, parts]
  | ternary condition ifTrue ifFalse => cases ifTrue <;> simp_all [map, expressions, parts]
  | _ => simp_all [map, expressions, parts]

end Layers

/--
The form is the access to a member of an object or of a class, which takes the arguments if it is a
call.
-/
inductive ExpressionForm.IsMember
    (base : Expression)
    (arguments : Option (List (Argument Expression))) :
    ExpressionForm Expression → Prop
  | ofObject {nullsafe : Bool} {name : String} :
      IsMember base arguments (memberForm base nullsafe (name, arguments))
  | ofClass {name : String} :
      IsMember base arguments (staticMemberForm base (name, arguments))

namespace ExpressionForm.IsMember

variable {base : Expression} {arguments : Option (List (Argument Expression))}
  {form : ExpressionForm Expression}

theorem ne_markup
    (member : IsMember base arguments form)
    (element : Element Expression) :
    form ≠ .markup element := by
  cases member <;> cases arguments <;> nofun

/-- The parts of the access are what it is made to and its arguments. -/
theorem parts_eq (member : IsMember base arguments form) :
    form.parts = base :: (arguments.getD []).map Argument.value := by
  cases member <;> cases arguments <;> rfl

end ExpressionForm.IsMember

namespace Expression

section Induction

/-- The property holds of an expression when it holds of its parts. -/
def Inherited (Holds : Expression → Prop) : Prop :=
  ∀ form span, (∀ part ∈ ExpressionForm.expressions form, Holds part) → Holds ⟨form, span⟩

variable {Holds : Expression → Prop}

mutual

/-- A property that expressions inherit from their parts holds of all expressions. -/
theorem induct (step : Inherited Holds) : (expression : Expression) → Holds expression
  | ⟨form, span⟩ => step form span (inductForm step form)

theorem inductForm (step : Inherited Holds) : (form : ExpressionForm Expression) →
    ∀ part ∈ form.expressions, Holds part
  | .array items => inductItems step items
  | .property object _ _ => List.forall_mem_singleton.mpr (induct step object)
  | .methodCall object _ arguments _ =>
      List.forall_mem_cons.mpr ⟨induct step object, inductArguments step arguments⟩
  | .staticCall owner _ arguments =>
      List.forall_mem_cons.mpr ⟨induct step owner, inductArguments step arguments⟩
  | .classConstant owner _ => List.forall_mem_singleton.mpr (induct step owner)
  | .call callee arguments =>
      List.forall_mem_cons.mpr ⟨induct step callee, inductArguments step arguments⟩
  | .entry collection index =>
      List.forall_mem_cons.mpr ⟨induct step collection, inductOption step index⟩
  | .binary _ left right =>
      List.forall_mem_cons.mpr
        ⟨induct step left, List.forall_mem_singleton.mpr (induct step right)⟩
  | .not operand => List.forall_mem_singleton.mpr (induct step operand)
  | .negate operand => List.forall_mem_singleton.mpr (induct step operand)
  | .ternary condition ifTrue ifFalse =>
      List.forall_mem_cons.mpr ⟨induct step condition, List.forall_mem_append.mpr
        ⟨inductOption step ifTrue, List.forall_mem_singleton.mpr (induct step ifFalse)⟩⟩
  | .assign target value =>
      List.forall_mem_cons.mpr
        ⟨induct step target, List.forall_mem_singleton.mpr (induct step value)⟩
  | .arrowFunction _ body => List.forall_mem_singleton.mpr (induct step body)
  | .markup element => inductElement step element
  | .variable _ | .constant _ | .bareName _ | .string _ | .int _ | .float _ =>
      fun _ none => nomatch none

theorem inductOption (step : Inherited Holds) : (part : Option Expression) →
    ∀ inner ∈ part.toList, Holds inner
  | none => fun _ none => nomatch none
  | some part => List.forall_mem_singleton.mpr (induct step part)

theorem inductItems (step : Inherited Holds) : (items : List (ArrayItem Expression)) →
    ∀ part ∈ items.flatMap ArrayItem.parts, Holds part
  | [] => fun _ none => nomatch none
  | ⟨key, value, _, _⟩ :: items => List.forall_mem_append.mpr
      ⟨List.forall_mem_append.mpr
        ⟨inductOption step key, List.forall_mem_singleton.mpr (induct step value)⟩,
        inductItems step items⟩

theorem inductArguments (step : Inherited Holds) : (arguments : List (Argument Expression)) →
    ∀ part ∈ arguments.map Argument.value, Holds part
  | [] => fun _ none => nomatch none
  | ⟨value, _, _⟩ :: arguments =>
      List.forall_mem_cons.mpr ⟨induct step value, inductArguments step arguments⟩

theorem inductElement (step : Inherited Holds) : (element : Element Expression) →
    ∀ part ∈ element.expressions, Holds part
  | ⟨_, items, children, _, _⟩ =>
      List.forall_mem_append.mpr ⟨inductAttributes step items, inductChildren step children⟩

theorem inductAttributes (step : Inherited Holds) : (items : List (AttributeItem Expression)) →
    ∀ part ∈ items.map AttributeItem.expression, Holds part
  | [] => fun _ none => nomatch none
  | .named ⟨_, value, _⟩ :: items =>
      List.forall_mem_cons.mpr ⟨induct step value, inductAttributes step items⟩
  | .spread ⟨expression, _⟩ :: items =>
      List.forall_mem_cons.mpr ⟨induct step expression, inductAttributes step items⟩

theorem inductChildren (step : Inherited Holds) : (children : List (Child Expression)) →
    ∀ part ∈ Child.expressionsOfAll children, Holds part
  | [] => fun _ none => nomatch none
  | .element element :: children =>
      List.forall_mem_append.mpr ⟨inductElement step element, inductChildren step children⟩
  | .hole ⟨expression, _⟩ :: children =>
      List.forall_mem_cons.mpr ⟨induct step expression, inductChildren step children⟩
  | .text _ :: children => inductChildren step children
  | .comment _ :: children => inductChildren step children

end

end Induction

/-- `inner` is the expression, or stands somewhere in it. -/
inductive Contains : Expression → Expression → Prop
  | self {expression : Expression} : Contains expression expression
  | part {whole part inner : Expression} :
      part ∈ whole.form.expressions →
      Contains part inner →
      Contains whole inner

/-- A property that expressions inherit from all that their parts contain holds of all
expressions. -/
theorem induct_contained
    {Holds : Expression → Prop}
    (step : ∀ whole : Expression,
      (∀ part ∈ whole.form.expressions, ∀ inner, part.Contains inner → Holds inner) → Holds whole)
    (expression : Expression) :
    Holds expression := by
  have inherited : Inherited fun whole => ∀ inner, whole.Contains inner → Holds inner := by
    intro form span inside inner contains
    cases contains with
    | self => exact step _ inside
    | part member contains => exact inside _ member inner contains
  exact induct inherited expression expression .self

/-- `inner` is the expression, or stands somewhere in it and in no markup that it contains. -/
inductive HostContains : Expression → Expression → Prop
  | self {expression : Expression} : HostContains expression expression
  | part {whole part inner : Expression} :
      part ∈ whole.form.parts →
      HostContains part inner →
      HostContains whole inner

/-- What stands in a name that became a constant stood in the name, or is the constant. -/
theorem HostContains.of_nameAsConstant
    {expression inner : Expression}
    (inside : HostContains expression.nameAsConstant inner) :
    inner = expression.nameAsConstant ∨ HostContains expression inner := by
  cases inside with
  | self => exact .inl rfl
  | part member inside =>
      obtain ⟨form, span⟩ := expression
      cases form with
      | bareName name => cases member
      | _ => exact .inr (.part member inside)

end Expression

/-! ## Elements in parts -/

section Elements

variable {Holds : Element Expression → Prop} {whole part : Expression}

mutual

/-- What stands in an expression of an element stands in the element. -/
theorem Element.includes_of_mem_expressions
    {inner : Element Expression} : (element : Element Expression) →
    part ∈ element.expressions → part.Includes inner → element.Includes inner
  | ⟨name, items, children, closingName, span⟩ => by
      intro member included
      rcases List.mem_append.mp member with member | member
      · obtain ⟨item, listed, rfl⟩ := List.mem_map.mp member
        exact .item listed included
      · obtain ⟨child, listed, included⟩ := Child.exists_includes_of_mem children member included
        exact .child listed included

theorem Child.includes_of_mem_expressions
    {inner : Element Expression} : (child : Child Expression) →
    part ∈ child.expressions → part.Includes inner → child.Includes inner
  | .element element => fun member included =>
      .element (Element.includes_of_mem_expressions element member included)
  | .hole _ => fun member included => .hole (List.mem_singleton.mp member ▸ included)
  | .text _ | .comment _ => fun none => nomatch none

theorem Child.exists_includes_of_mem
    {inner : Element Expression} : (children : List (Child Expression)) →
    part ∈ Child.expressionsOfAll children → part.Includes inner →
      ∃ child ∈ children, child.Includes inner
  | [] => fun none => nomatch none
  | child :: children => by
      intro member included
      rcases List.mem_append.mp member with member | member
      · exact ⟨child, List.mem_cons_self, Child.includes_of_mem_expressions child member included⟩
      · obtain ⟨further, listed, included⟩ := Child.exists_includes_of_mem children member included
        exact ⟨further, List.mem_cons_of_mem _ listed, included⟩

end

namespace Expression

/-- What holds of all elements in an expression holds of those in its parts. -/
theorem All.of_mem_expressions
    (all : whole.All Holds)
    (member : part ∈ whole.form.expressions) :
    part.All Holds := by
  intro inner included
  obtain ⟨form, span⟩ := whole
  refine all inner ?_
  cases form with
  | markup element => exact .markup (Element.includes_of_mem_expressions element member included)
  | _ => exact .part member included

theorem All.of_contains (all : whole.All Holds) (contains : whole.Contains part) :
    part.All Holds := by
  induction contains with
  | self => exact all
  | part member _ ih => exact ih (all.of_mem_expressions member)

end Expression

end Elements

end EmbeddedMarkup
