import EmbeddedMarkup.Proofs.Reading.Leading

/-!
# Operators without needless parentheses

Operators have levels, from the loosest to the tightest, and the operators of a level group to the
left or to the right.  An operand may stand without parentheses where it is tighter than the
operator, or on the side of its level that the operator groups to.  A tree of operators that is
written with no other parentheses is read as that tree: the powers that connectives bind with
encode the levels.
-/

namespace EmbeddedMarkup

/-- The levels of operators, from the loosest to the tightest. -/
inductive OperatorLevel where
  | or
  | xor
  | and
  | assignment
  | choice
  | coalesce
  | disjunction
  | conjunction
  | equality
  | comparison
  | concatenation
  | sum
  | product
  | sign
  /-- What is no operator. -/
  | atom
deriving DecidableEq, Repr

namespace OperatorLevel

/-- How many levels are looser. -/
def rank : OperatorLevel → Nat
  | or => 0
  | xor => 1
  | and => 2
  | assignment => 3
  | choice => 4
  | coalesce => 5
  | disjunction => 6
  | conjunction => 7
  | equality => 8
  | comparison => 9
  | concatenation => 10
  | sum => 11
  | product => 12
  | sign => 13
  | atom => 14

/-- The operators of the level group to the right; all others group to the left. -/
def groupsRight : OperatorLevel → Bool
  | assignment | coalesce | sign => true
  | _ => false

/-- An operand of the other level needs no parentheses on the left. -/
def admitsLeft (level operand : OperatorLevel) : Bool :=
  level.rank < operand.rank || (level == operand && !level.groupsRight)

/-- An operand of the other level needs no parentheses on the right. -/
def admitsRight (level operand : OperatorLevel) : Bool :=
  level.rank < operand.rank || (level == operand && level.groupsRight)

end OperatorLevel

/-- The level of an operator with two operands. -/
def BinaryOperator.level : BinaryOperator → OperatorLevel
  | .logicalOr => .or
  | .logicalXor => .xor
  | .logicalAnd => .and
  | .coalesce => .coalesce
  | .booleanOr => .disjunction
  | .booleanAnd => .conjunction
  | .equal | .notEqual | .identical | .notIdentical => .equality
  | .smaller | .smallerOrEqual | .greater | .greaterOrEqual => .comparison
  | .concat => .concatenation
  | .plus | .minus => .sum
  | .mul | .div | .mod => .product

/-- How an operator with two operands is written. -/
def BinaryOperator.spelling : BinaryOperator → String
  | .concat => "."
  | .plus => "+"
  | .minus => "-"
  | .mul => "*"
  | .div => "/"
  | .mod => "%"
  | .equal => "=="
  | .notEqual => "!="
  | .identical => "==="
  | .notIdentical => "!=="
  | .smaller => "<"
  | .smallerOrEqual => "<="
  | .greater => ">"
  | .greaterOrEqual => ">="
  | .booleanAnd => "&&"
  | .booleanOr => "||"
  | .logicalAnd => "and"
  | .logicalOr => "or"
  | .logicalXor => "xor"
  | .coalesce => "??"

/-- The name of a variable that can be read. -/
structure VariableName where
  text : List Char
  isIdentifier : IsIdentifier text

/-- A tree of operators over variables. -/
inductive OperatorTree where
  | variable (name : VariableName)
  | binary (operator : BinaryOperator) (left right : OperatorTree)
  | not (operand : OperatorTree)
  | negate (operand : OperatorTree)
  | ternary (condition ifTrue ifFalse : OperatorTree)
  /-- A choice whose condition is also the first alternative. -/
  | shortTernary (condition ifFalse : OperatorTree)
  | assign (target : VariableName) (value : OperatorTree)

/-- Put a text in parentheses, unless it may stand without them. -/
def enclosed (bare : Bool) (text : List Char) : List Char :=
  if bare then text else spaced ["(".toList, text, ")".toList]

namespace OperatorTree

/-- The level of the operator at the root. -/
def level : OperatorTree → OperatorLevel
  | .variable _ => .atom
  | .binary operator _ _ => operator.level
  | .not _ | .negate _ => .sign
  | .ternary .. | .shortTernary .. => .choice
  | .assign .. => .assignment

/-- Write a tree with single spaces between tokens and no parentheses but those that are needed. -/
def print : OperatorTree → List Char
  | .variable name => '$' :: name.text
  | .binary operator left right =>
      spaced [enclosed (operator.level.admitsLeft left.level) left.print,
        operator.spelling.toList,
        enclosed (operator.level.admitsRight right.level) right.print]
  | .not operand =>
      spaced ["!".toList, enclosed (OperatorLevel.sign.admitsRight operand.level) operand.print]
  | .negate operand =>
      spaced ["-".toList, enclosed (OperatorLevel.sign.admitsRight operand.level) operand.print]
  | .ternary condition ifTrue ifFalse =>
      spaced [enclosed (OperatorLevel.choice.admitsLeft condition.level) condition.print,
        "?".toList, ifTrue.print, ":".toList,
        enclosed (OperatorLevel.choice.admitsRight ifFalse.level) ifFalse.print]
  | .shortTernary condition ifFalse =>
      spaced [enclosed (OperatorLevel.choice.admitsLeft condition.level) condition.print,
        "?".toList, ":".toList,
        enclosed (OperatorLevel.choice.admitsRight ifFalse.level) ifFalse.print]
  | .assign target value =>
      spaced ['$' :: target.text, "=".toList,
        enclosed (OperatorLevel.assignment.admitsRight value.level) value.print]

/-- The expression of a variable, without spans. -/
def variableExpression (name : VariableName) : Expression :=
  ⟨.variable (String.ofList name.text), default⟩

/-- The expression that a tree stands for, without spans. -/
def expression : OperatorTree → Expression
  | .variable name => variableExpression name
  | .binary operator left right => ⟨.binary operator left.expression right.expression, default⟩
  | .not operand => ⟨.not operand.expression, default⟩
  | .negate operand => ⟨.negate operand.expression, default⟩
  | .ternary condition ifTrue ifFalse =>
      ⟨.ternary condition.expression (some ifTrue.expression) ifFalse.expression, default⟩
  | .shortTernary condition ifFalse =>
      ⟨.ternary condition.expression none ifFalse.expression, default⟩
  | .assign target value => ⟨.assign (variableExpression target) value.expression, default⟩

end OperatorTree

/-! ## The powers of levels -/

namespace OperatorLevel

/-- The power that the operators of a level bind to their left with. -/
def left : OperatorLevel → Nat
  | or => 1
  | xor => 3
  | and => 5
  | assignment => 8
  | choice => 10
  | coalesce => 13
  | disjunction => 14
  | conjunction => 16
  | equality => 18
  | comparison => 20
  | concatenation => 22
  | sum => 24
  | product => 26
  | sign | atom => signPower

/-- The power that the operators of a level bind to their right with. -/
def right : OperatorLevel → Nat
  | or => 2
  | xor => 4
  | and => 6
  | assignment => 7
  | choice => 11
  | coalesce => 12
  | disjunction => 15
  | conjunction => 17
  | equality => 19
  | comparison => 21
  | concatenation => 23
  | sum => 25
  | product => 27
  | sign | atom => signPower

variable {level operand : OperatorLevel}

/-- What needs no parentheses on the left binds to its left and holds its right strongly enough. -/
theorem of_admitsLeft
    (admits : level.admitsLeft operand = true)
    (connects : level.left < signPower) :
    level.left ≤ operand.left ∧ level.left < operand.right := by
  revert admits connects
  cases level <;> cases operand <;> decide

/-- What needs no parentheses on the right binds to its left and holds its right strongly enough. -/
theorem of_admitsRight (admits : level.admitsRight operand = true) :
    level.right ≤ operand.left ∧ level.right ≤ operand.right := by
  revert admits
  cases level <;> cases operand <;> decide

theorem right_le_signPower (level : OperatorLevel) : level.right ≤ signPower := by
  cases level <;> decide

end OperatorLevel

namespace BinaryOperator

/-- The lexeme of an operator. -/
def lexeme : BinaryOperator → Lexeme
  | .concat => .symbol .dot
  | .plus => .symbol .plus
  | .minus => .symbol .minus
  | .mul => .symbol .star
  | .div => .symbol .slash
  | .mod => .symbol .percent
  | .equal => .symbol .equal
  | .notEqual => .symbol .notEqual
  | .identical => .symbol .identical
  | .notIdentical => .symbol .notIdentical
  | .smaller => .symbol .less
  | .smallerOrEqual => .symbol .lessOrEqual
  | .greater => .symbol .greater
  | .greaterOrEqual => .symbol .greaterOrEqual
  | .booleanAnd => .symbol .booleanAnd
  | .booleanOr => .symbol .booleanOr
  | .logicalAnd => .word .logicalAnd "and"
  | .logicalOr => .word .logicalOr "or"
  | .logicalXor => .word .logicalXor "xor"
  | .coalesce => .symbol .coalesce

theorem spells_spelling (operator : BinaryOperator) :
    Spells operator.spelling.toList operator.lexeme := by
  cases operator <;> constructor <;> first | decide | rfl

/-- Operators bind with the powers of their levels. -/
theorem binding?_lexeme (operator : BinaryOperator) :
    operator.lexeme.binding? =
      some ⟨.binary operator, operator.level.left, operator.level.right⟩ := by
  cases operator <;> rfl

end BinaryOperator

/-! ## Reading what is written -/

section Enclosed

variable {text : List Char} {expression : Expression} {level operand : OperatorLevel}

/-- The text leads to the expression wherever an operator of the level may stand in front of it. -/
def LeadsAt (level : OperatorLevel) (text : List Char) (expression : Expression) : Prop :=
  expression.isName = false ∧ ∀ power ≤ level.left, Leads power level.right text expression

/-- What is written as an operand on the left holds the operator behind it. -/
theorem LeadsAt.enclosed_left
    {power : Nat}
    (leads : LeadsAt operand text expression)
    (takes : power ≤ level.left)
    (connects : level.left < signPower) :
    ∃ strength, level.left < strength ∧
      Leads power strength (enclosed (level.admitsLeft operand) text) expression := by
  obtain ⟨proper, leads⟩ := leads
  cases admits : level.admitsLeft operand with
  | true =>
      obtain ⟨tight, held⟩ := OperatorLevel.of_admitsLeft admits connects
      exact ⟨operand.right, held, leads power (Nat.le_trans takes tight)⟩
  | false =>
      have inner := (leads 0 (Nat.zero_le _)).mono (Nat.zero_le _)
      exact ⟨signPower, connects, (inner.parenthesized proper).leads⟩

/-- What is written as an operand on the right is taken by the operator in front of it. -/
theorem LeadsAt.enclosed_right
    (leads : LeadsAt operand text expression)
    (level : OperatorLevel) :
    Leads level.right level.right (enclosed (level.admitsRight operand) text) expression := by
  obtain ⟨proper, leads⟩ := leads
  cases admits : level.admitsRight operand with
  | true =>
      obtain ⟨tight, held⟩ := OperatorLevel.of_admitsRight admits
      exact (leads level.right tight).mono held
  | false =>
      have inner := (leads 0 (Nat.zero_le _)).mono (Nat.zero_le _)
      exact (inner.parenthesized proper).leads.mono level.right_le_signPower

/-- An operand leads to itself at the tightest levels. -/
theorem IsOperand.leadsAt
    (isOperand : IsOperand text expression)
    (proper : expression.isName = false)
    (tightest : level.right = signPower) :
    LeadsAt level text expression := by
  refine ⟨proper, fun power _ => ?_⟩
  rw [tightest]
  exact isOperand.leads

end Enclosed

namespace OperatorTree

theorem isOperand_variable (name : VariableName) :
    IsOperand ('$' :: name.text) (variableExpression name) :=
  (spells_variable name.isIdentifier).isOperand rfl

/-- A written tree leads to its expression at every power that its level admits. -/
theorem leadsAt_print (tree : OperatorTree) : LeadsAt tree.level tree.print tree.expression := by
  induction tree with
  | «variable» name => exact (isOperand_variable name).leadsAt rfl rfl
  | binary operator left right left_leads right_leads =>
      refine ⟨rfl, fun power takes => ?_⟩
      obtain ⟨strength, held, leads⟩ := left_leads.enclosed_left takes
        (Lexeme.left_lt_signPower operator.binding?_lexeme)
      exact leads.binary operator.spells_spelling operator.binding?_lexeme takes held
        (right_leads.enclosed_right operator.level) (Nat.le_refl _)
  | not operand leads => exact ((leads.enclosed_right .sign).signed .not).leadsAt rfl rfl
  | negate operand leads => exact ((leads.enclosed_right .sign).signed .negate).leadsAt rfl rfl
  | ternary condition ifTrue ifFalse condition_leads true_leads false_leads =>
      refine ⟨rfl, fun power takes => ?_⟩
      obtain ⟨strength, held, leads⟩ := condition_leads.enclosed_left takes
        (by decide : OperatorLevel.choice.left < signPower)
      have inner := (true_leads.2 0 (Nat.zero_le _)).mono (Nat.zero_le _)
      exact leads.ternary (spells_symbol .question) rfl takes held inner
        (false_leads.enclosed_right .choice) (Nat.le_refl _)
  | shortTernary condition ifFalse condition_leads false_leads =>
      refine ⟨rfl, fun power takes => ?_⟩
      obtain ⟨strength, held, leads⟩ := condition_leads.enclosed_left takes
        (by decide : OperatorLevel.choice.left < signPower)
      exact leads.shortTernary (spells_symbol .question) rfl takes held
        (false_leads.enclosed_right .choice) (Nat.le_refl _)
  | assign target value leads =>
      refine ⟨rfl, fun power takes => ?_⟩
      exact (isOperand_variable target).leads.assign rfl (spells_symbol .assign) rfl takes
        (by decide) (leads.enclosed_right .assignment) (Nat.le_refl _)

theorem withoutSpans_expression (tree : OperatorTree) :
    tree.expression.withoutSpans = tree.expression := by
  induction tree <;> simp_all [expression, variableExpression]

/-- A tree of operators that is written with the parentheses it needs is read as that tree. -/
theorem ofText_print (tree : OperatorTree) :
    ∃ read least, read.withoutSpans = tree.expression ∧
      ∀ budget, least ≤ budget →
        Expression.ofText (String.ofList tree.print) budget = .ok read := by
  have leads := (tree.leadsAt_print.2 0 (Nat.zero_le _)).mono (Nat.zero_le _)
  obtain ⟨read, least, same, reads⟩ := leads.ofText_eq_ok
  exact ⟨read, least, same.trans tree.withoutSpans_expression, reads⟩

end OperatorTree
end EmbeddedMarkup
