import EmbeddedMarkup.Proofs.Expression.Spelling
import EmbeddedMarkup.Proofs.Tree.Names

/-!
# The shape of trees

The type of expressions has more trees than the host language.  A class is a bare name, values are
assigned to places, numbers and literals are not called, unpacked items have no key, and keywords
are no names.  A bare name is no value, so it is no operand; where a property, a method or an entry
is accessed on a bare name, the tree is out of order in this one respect.
-/

namespace EmbeddedMarkup

section Layers

variable {ε : Type}

/-- What a form calls. -/
def ExpressionForm.callee? : ExpressionForm ε → Option ε
  | .call callee _ => some callee
  | _ => none

/-- What a form names the class with. -/
def ExpressionForm.owner? : ExpressionForm ε → Option ε
  | .staticCall owner _ _ | .classConstant owner _ => some owner
  | _ => none

/-- The expressions that a form neither calls nor accesses nor takes for a class. -/
def ExpressionForm.operands : ExpressionForm ε → List ε
  | .property .. | .classConstant .. => []
  | .methodCall _ _ arguments _ | .staticCall _ _ arguments | .call _ arguments =>
      arguments.map Argument.value
  | .entry _ index => index.toList
  | form => form.expressions

/-- Every expression of a form has one of these places. -/
theorem ExpressionForm.expressions_eq (form : ExpressionForm ε) :
    form.expressions =
      form.callee?.toList ++ form.owner?.toList ++ form.base?.toList ++ form.operands := by
  cases form <;> rfl

/-- A value can be assigned to the form. -/
def ExpressionForm.IsTarget : ExpressionForm ε → Prop
  | .variable _ | .property .. | .entry .. | .array _ => True
  | _ => False

/-- The form is nothing that can be called: a number, a literal, or the keyword of an array. -/
def ExpressionForm.IsUncalled : ExpressionForm ε → Prop
  | .int _ | .float _ | .array _ | .markup _ => True
  | .bareName name => sameWord name "array" = true
  | _ => False

end Layers

/-- The words of the host language that are no names. -/
def keywords : List String :=
  ["fn", "and", "or", "xor"]

/-- The name is none of the keywords, in any letter case. -/
def IsPlainName (name : String) : Prop :=
  ∀ keyword ∈ keywords, sameWord name keyword = false

instance (name : String) : Decidable (IsPlainName name) :=
  inferInstanceAs (Decidable (∀ keyword ∈ keywords, sameWord name keyword = false))

/-- What the host language asks of one form. -/
def ExpressionForm.KeepsRules : ExpressionForm Expression → Prop
  | .variable name => IsIdentifier name.toList
  | .constant name | .bareName name => IsPlainName name
  | .int value => 0 ≤ value
  | .array items => ∀ item ∈ items, item.unpack = true → item.key = none
  | .staticCall owner _ _ | .classConstant owner _ => owner.isName = true
  | .call callee _ => ¬callee.form.IsUncalled
  | .assign target _ => target.form.IsTarget
  | .arrowFunction parameters _ => ∀ parameter ∈ parameters, IsIdentifier parameter.name.toList
  | _ => True

namespace Expression

/-- The expression keeps the rules, and its operands are no bare names. -/
structure KeepsRules (expression : Expression) : Prop where
  form : expression.form.KeepsRules
  operands : ∀ operand ∈ expression.form.operands, operand.isName = false

/-- All that the expression contains keeps the rules. -/
def KeepsRulesInside (expression : Expression) : Prop :=
  ∀ inner, expression.Contains inner → inner.KeepsRules

/-- The expression is a value in which everything keeps the rules. -/
structure IsShaped (expression : Expression) : Prop where
  value : expression.isName = false
  inside : expression.KeepsRulesInside

/-- Bare names stand nowhere but where they are called or name a class. -/
def ConfinesNames (expression : Expression) : Prop :=
  expression.isName = false ∧ ∀ inner, expression.Contains inner →
    ∀ part ∈ inner.form.base?.toList ++ inner.form.operands, part.isName = false

variable {expression : Expression} {form : ExpressionForm Expression} {span : Span}

/-- Names are confined to their places exactly where nothing is accessed on a name. -/
theorem IsShaped.confinesNames_iff (shaped : expression.IsShaped) :
    expression.ConfinesNames ↔
      ∀ inner, expression.Contains inner → inner.accessesName = false := by
  have bases : ∀ inner : Expression,
      inner.accessesName = false ↔ ∀ part ∈ inner.form.base?.toList, part.isName = false := by
    intro inner
    unfold accessesName
    cases inner.form.base? <;> simp
  constructor
  · intro confined inner inside
    exact (bases inner).mpr fun part member =>
      confined.2 inner inside part (List.mem_append_left _ member)
  · intro proper
    refine ⟨shaped.value, fun inner inside part member => ?_⟩
    rcases List.mem_append.mp member with base | operand
    · exact (bases inner).mp (proper inner inside) part base
    · exact (shaped.inside inner inside).operands part operand

/-- What keeps the rules in its form and inside its parts does so inside. -/
theorem keepsRulesInside_mk
    (rules : form.KeepsRules)
    (operands : ∀ operand ∈ form.operands, operand.isName = false)
    (parts : ∀ part ∈ form.expressions, part.KeepsRulesInside) :
    KeepsRulesInside ⟨form, span⟩ := by
  intro inner inside
  cases inside with
  | self => exact ⟨rules, operands⟩
  | part member inside => exact parts _ member inner inside

/--
A value is shaped if its form keeps the rules, its operands are shaped, and the rules are kept
inside what it calls, accesses or takes for a class.
-/
theorem isShaped_mk
    (value : isName ⟨form, span⟩ = false)
    (rules : form.KeepsRules)
    (heads : ∀ head ∈ form.callee?.toList ++ form.owner?.toList ++ form.base?.toList,
      head.KeepsRulesInside)
    (operands : ∀ operand ∈ form.operands, operand.IsShaped) :
    IsShaped ⟨form, span⟩ := by
  refine ⟨value, keepsRulesInside_mk rules (fun operand member => (operands operand member).value)
    fun part member => ?_⟩
  rw [ExpressionForm.expressions_eq] at member
  rcases List.mem_append.mp member with head | operand
  · exact heads part head
  · exact (operands part operand).inside

/-- A constant is shaped unless it is a keyword. -/
theorem isShaped_constant
    {name : String}
    (plain : IsPlainName name) :
    IsShaped ⟨.constant name, span⟩ :=
  isShaped_mk rfl plain (List.forall_mem_nil _) (List.forall_mem_nil _)

end Expression
end EmbeddedMarkup
