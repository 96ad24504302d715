import EmbeddedMarkup.Proofs.Tree.Parts

/-!
# Names that are accessed

A bare name is called, or names the class of a member behind `::`; anywhere else it should stand
for a constant.  A property, a method or an entry is accessed on a value, but the expression that
is accessed may still be a bare name.  Resolving an expression makes these names constants, and
changes nothing exactly where there are none.
-/

namespace EmbeddedMarkup

section Layers

variable {ε : Type}

/-- What a property, a method or an entry is accessed on. -/
def ExpressionForm.base? : ExpressionForm ε → Option ε
  | .property object _ _ | .methodCall object _ _ _ => some object
  | .entry collection _ => some collection
  | _ => none

/-- Change what a property, a method or an entry is accessed on. -/
def ExpressionForm.mapBase (f : ε → ε) : ExpressionForm ε → ExpressionForm ε
  | .property object name nullsafe => .property (f object) name nullsafe
  | .methodCall object name arguments nullsafe => .methodCall (f object) name arguments nullsafe
  | .entry collection index => .entry (f collection) index
  | form => form

end Layers

namespace Expression

/-- The expression accesses something on a bare name. -/
def accessesName (expression : Expression) : Bool :=
  (expression.form.base?.map isName).getD false

/-- Every name on which something is accessed becomes the constant that it stands for. -/
def resolved (expression : Expression) : Expression :=
  expression.fold fun form span => ⟨form.mapBase nameAsConstant, span⟩

variable (expression : Expression)

theorem resolved_mk (form : ExpressionForm Expression) (span : Span) :
    resolved ⟨form, span⟩ = ⟨(form.map resolved).mapBase nameAsConstant, span⟩ :=
  fold_mk _ form span

@[simp] theorem isName_resolved : expression.resolved.isName = expression.isName := by
  obtain ⟨form, span⟩ := expression
  cases form <;> rfl

@[simp] theorem isAssignable_resolved :
    expression.resolved.isAssignable = expression.isAssignable := by
  obtain ⟨form, span⟩ := expression
  cases form <;> rfl

@[simp] theorem isCallable_resolved : expression.resolved.isCallable = expression.isCallable := by
  obtain ⟨form, span⟩ := expression
  cases form <;> rfl

@[simp] theorem accessesName_withoutSpans :
    expression.withoutSpans.accessesName = expression.accessesName := by
  obtain ⟨form, span⟩ := expression
  cases form <;> simp [accessesName, ExpressionForm.base?]

@[simp] theorem accessesName_resolved : expression.resolved.accessesName = false := by
  obtain ⟨form, span⟩ := expression
  rw [resolved_mk]
  cases form <;> simp [accessesName, ExpressionForm.base?, ExpressionForm.mapBase,
    ExpressionForm.map]

/-- Where nothing is accessed on a name, an expression is resolved by resolving its parts. -/
theorem resolved_of_accessesName_eq_false
    {form : ExpressionForm Expression}
    {span : Span}
    (proper : accessesName ⟨form, span⟩ = false) :
    resolved ⟨form, span⟩ = ⟨form.map resolved, span⟩ := by
  rw [resolved_mk]
  cases form with
  | property object name nullsafe =>
      have plain : object.resolved.isName = false := (isName_resolved object).trans proper
      simp [ExpressionForm.map, ExpressionForm.mapBase, nameAsConstant_of_isName_eq_false plain]
  | methodCall object name arguments nullsafe =>
      have plain : object.resolved.isName = false := (isName_resolved object).trans proper
      simp [ExpressionForm.map, ExpressionForm.mapBase, nameAsConstant_of_isName_eq_false plain]
  | entry collection index =>
      have plain : collection.resolved.isName = false := (isName_resolved collection).trans proper
      simp [ExpressionForm.map, ExpressionForm.mapBase, nameAsConstant_of_isName_eq_false plain]
  | _ => rfl

/-- Forms that are the same without spans have the same parts without spans. -/
theorem withoutSpans_eq_of_expressions
    {form form' : ExpressionForm Expression}
    (same : form.withoutSpans = form'.withoutSpans) :
    form.expressions.map withoutSpans = form'.expressions.map withoutSpans := by
  have expressions := congrArg ExpressionForm.expressions same
  rwa [ExpressionForm.withoutSpans, ExpressionForm.withoutSpans,
    ExpressionForm.expressions_unspanned, ExpressionForm.expressions_unspanned,
    ExpressionForm.expressions_map, ExpressionForm.expressions_map] at expressions

/--
Resolving changes nothing but spans exactly where nothing is accessed on a name, anywhere in the
expression.
-/
theorem withoutSpans_resolved_eq_iff :
    expression.resolved.withoutSpans = expression.withoutSpans ↔
      ∀ inner, expression.Contains inner → inner.accessesName = false := by
  refine @induct (fun expression => expression.resolved.withoutSpans = expression.withoutSpans ↔
      ∀ inner, expression.Contains inner → inner.accessesName = false) ?_ expression
  intro form span parts
  constructor
  · intro same inner inside
    have proper : accessesName ⟨form, span⟩ = false := by
      rw [← accessesName_withoutSpans, ← same, accessesName_withoutSpans, accessesName_resolved]
    cases inside with
    | self => exact proper
    | @part _ part _ member inside =>
        rw [resolved_of_accessesName_eq_false proper, withoutSpans_mk, withoutSpans_mk,
          Expression.mk.injEq] at same
        have expressions := withoutSpans_eq_of_expressions same.1
        rw [ExpressionForm.expressions_map, List.map_map, List.map_inj_left] at expressions
        exact (parts part member).mp (expressions part member) inner inside
  · intro proper
    rw [resolved_of_accessesName_eq_false (proper _ .self), withoutSpans_mk, withoutSpans_mk,
      ExpressionForm.withoutSpans, ExpressionForm.withoutSpans, ExpressionForm.map_map_eq]
    intro part member
    exact (parts part member).mpr fun inner inside => proper inner (.part member inside)

end Expression
end EmbeddedMarkup
