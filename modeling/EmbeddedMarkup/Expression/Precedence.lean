import EmbeddedMarkup.Expression.Syntax
import EmbeddedMarkup.Expression.Token

/-!
# Precedence of operators

An operator between operands binds to its left and to its right with some power.  It takes an
operand on its left if it binds to it at least as strongly as the operator in front of that
operand asks, and passes its right power on to what follows it.  So an operator groups to the
left when its right power is the greater one, and to the right when its left power is.
-/

namespace EmbeddedMarkup

/-- What an operator between operands makes of them. -/
inductive Connective where
  | binary (operator : BinaryOperator)
  | assign
  /-- The choice, whose middle part stands between `?` and `:`. -/
  | ternary
deriving DecidableEq, Repr

/-- A connective and the powers it binds with. -/
structure Binding where
  connective : Connective
  left : Nat
  right : Nat
deriving DecidableEq, Repr

/-- The power that a sign in front of an operand binds with. -/
def signPower : Nat := 28

/-- How a symbol connects operands, if it does. -/
def Symbol.binding? : Symbol → Option Binding
  | .assign => some ⟨.assign, 8, 7⟩
  | .question => some ⟨.ternary, 10, 11⟩
  | .coalesce => some ⟨.binary .coalesce, 13, 12⟩
  | .booleanOr => some ⟨.binary .booleanOr, 14, 15⟩
  | .booleanAnd => some ⟨.binary .booleanAnd, 16, 17⟩
  | .equal => some ⟨.binary .equal, 18, 19⟩
  | .notEqual => some ⟨.binary .notEqual, 18, 19⟩
  | .identical => some ⟨.binary .identical, 18, 19⟩
  | .notIdentical => some ⟨.binary .notIdentical, 18, 19⟩
  | .less => some ⟨.binary .smaller, 20, 21⟩
  | .lessOrEqual => some ⟨.binary .smallerOrEqual, 20, 21⟩
  | .greater => some ⟨.binary .greater, 20, 21⟩
  | .greaterOrEqual => some ⟨.binary .greaterOrEqual, 20, 21⟩
  | .dot => some ⟨.binary .concat, 22, 23⟩
  | .plus => some ⟨.binary .plus, 24, 25⟩
  | .minus => some ⟨.binary .minus, 24, 25⟩
  | .star => some ⟨.binary .mul, 26, 27⟩
  | .slash => some ⟨.binary .div, 26, 27⟩
  | .percent => some ⟨.binary .mod, 26, 27⟩
  | _ => none

/-- How a word connects operands, if it does. -/
def WordKind.binding? : WordKind → Option Binding
  | .logicalOr => some ⟨.binary .logicalOr, 1, 2⟩
  | .logicalXor => some ⟨.binary .logicalXor, 3, 4⟩
  | .logicalAnd => some ⟨.binary .logicalAnd, 5, 6⟩
  | _ => none

/-- How a lexeme connects operands, if it does. -/
def Lexeme.binding? : Lexeme → Option Binding
  | .symbol kind => kind.binding?
  | .word kind _ => kind.binding?
  | _ => none

/-- The end of the input connects nothing. -/
theorem Lexeme.ne_endOfInput_of_binding?
    {lexeme : Lexeme}
    {binding : Binding}
    (connects : lexeme.binding? = some binding) :
    lexeme ≠ .endOfInput := by
  rintro rfl
  contradiction

end EmbeddedMarkup
