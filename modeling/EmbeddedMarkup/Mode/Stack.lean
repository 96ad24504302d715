import EmbeddedMarkup.Mode
import EmbeddedMarkup.Text.Position

/-!
# The stack of modes

An open tag puts a header mode on the stack, its `>` turns that into a content mode, and a hole
puts a hole mode above either of them.  Host code in a hole may open a tag again, above the
hole.  Each closing takes off what its opening put on.

Open tags and nested host expressions are charged against one budget, so one bound limits how
deep reading recurses, whichever way the source nests.

Every move is a state transition that answers with a fault or a value and leaves a stack in
both cases.
-/

namespace EmbeddedMarkup

/-- The modes that are active, innermost first, and what is charged against the budget. -/
structure ModeStack where
  /-- The active modes, innermost first; the last one is host code. -/
  frames : List Mode
  /-- Nested host expressions. -/
  expressions : Nat
  /-- The most that open tags and nested host expressions may come to. -/
  budget : Nat
deriving DecidableEq, Repr

/-- A refused move and where it was asked for. -/
abbrev ModeRefusal : Type :=
  Located ModeFault

/-- How a refused move is shown to the user. -/
def ModeRefusal.display (refusal : ModeRefusal) : String :=
  refusal.position.report "Lexer error" refusal.cause.message

/-- A move on the stack of modes, which may be refused. -/
abbrev ModeStep (α : Type) : Type :=
  ModeStack → EStateM.Result ModeRefusal ModeStack α

/-- The budget of a reader that is given none. -/
def defaultBudget : Nat := 128

namespace ModeStack

/-- Host code, with nothing open. -/
def initial (budget : Nat) : ModeStack :=
  ⟨[.hostCode], 0, budget⟩

/-- The innermost mode. -/
def mode (stack : ModeStack) : Mode :=
  stack.frames.head?.getD .hostCode

/-- The number of open tags. -/
def depth (stack : ModeStack) : Nat :=
  stack.mode.depth

/-- The charge against the budget: open tags and nested host expressions. -/
def nesting (stack : ModeStack) : Nat :=
  stack.depth + stack.expressions

/-- The number of modes above the outermost host code. -/
def height (stack : ModeStack) : Nat :=
  stack.frames.length - 1

/-- Put a mode on the stack. -/
def push (stack : ModeStack) (mode : Mode) : ModeStack :=
  { stack with frames := mode :: stack.frames }

/-- Put a mode in the place of the innermost one. -/
def replace (stack : ModeStack) (mode : Mode) : ModeStack :=
  { stack with frames := mode :: stack.frames.drop 1 }

/-- Take off the innermost mode, but never the outermost host code. -/
def pop (stack : ModeStack) : ModeStack :=
  if 1 < stack.frames.length then { stack with frames := stack.frames.drop 1 } else stack

/-- Refuse a move that the innermost mode does not allow. -/
def refuse {α : Type} (change : ModeChange) (position : Position) : ModeStep α :=
  fun stack => .error ⟨.notAllowed change stack.mode, position⟩ stack

/-- A tag opens in every mode but a tag header, if the budget allows one more. -/
def openTag (position : Position) : ModeStep Nat := fun stack =>
  match stack.mode with
  | .tagHeader _ => refuse .openTag position stack
  | mode =>
      if stack.budget < mode.depth + 1 + stack.expressions then
        .error ⟨.tooManyTags stack.budget, position⟩ stack
      else .ok (mode.depth + 1) (stack.push (.tagHeader (mode.depth + 1)))

/-- The `>` of a tag header starts the content of its element. -/
def enterContent (position : Position) : ModeStep Unit := fun stack =>
  match stack.mode with
  | .tagHeader depth => .ok () (stack.replace (.tagContent depth))
  | _ => refuse .enterContent position stack

/-- The `/>` of a tag header ends its element. -/
def selfClose (position : Position) : ModeStep Mode := fun stack =>
  match stack.mode with
  | .tagHeader _ => .ok stack.pop.mode stack.pop
  | _ => refuse .selfClose position stack

/-- A closing tag ends the content of its element. -/
def closeTag (position : Position) : ModeStep Mode := fun stack =>
  match stack.mode with
  | .tagContent _ => .ok stack.pop.mode stack.pop
  | _ => refuse .closeTag position stack

/-- A `{` opens a hole in a tag header or in content. -/
def openHole (position : Position) : ModeStep Unit := fun stack =>
  match stack.mode with
  | .tagHeader depth => .ok () (stack.push (.expressionHole depth .tagHeader))
  | .tagContent depth => .ok () (stack.push (.expressionHole depth .tagContent))
  | _ => refuse .openHole position stack

/-- A mode that a hole of this owner leads back to. -/
def isOwnedBy : HoleOwner → Mode → Bool
  | .tagHeader, .tagHeader _ => true
  | .tagContent, .tagContent _ => true
  | _, _ => false

/-- The `}` of a hole leads back to the mode that the hole was opened in. -/
def closeHole (position : Position) : ModeStep Mode := fun stack =>
  match stack.mode with
  | .expressionHole _ owner =>
      if isOwnedBy owner stack.pop.mode then .ok stack.pop.mode stack.pop
      else refuse .returnFromHole position stack.pop
  | _ => refuse .closeHole position stack

/-- Charge one nested host expression, if the budget allows it. -/
def enterExpression (position : Position) : ModeStep Unit := fun stack =>
  if stack.budget < stack.nesting + 1 then
    .error ⟨.tooManyExpressions stack.budget, position⟩ stack
  else .ok () { stack with expressions := stack.expressions + 1 }

/-- Give back the charge of a nested host expression. -/
def exitExpression (stack : ModeStack) : ModeStack :=
  { stack with expressions := stack.expressions - 1 }

end ModeStack
end EmbeddedMarkup
