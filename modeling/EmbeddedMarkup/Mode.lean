/-!
# Reading modes

What a character means depends on where the reader stands: in host code, in the header of a
tag, in the content of an element, or in a hole that holds host code again.
-/

namespace EmbeddedMarkup

/-- Where a hole was opened, and so where its closing brace leads back to. -/
inductive HoleOwner where
  /-- The hole is an attribute value or a spread. -/
  | tagHeader
  /-- The hole is a child. -/
  | tagContent
deriving DecidableEq, Repr

/-- A reading mode.  The depth counts the tags that are open. -/
inductive Mode where
  /-- Host code that is in no element. -/
  | hostCode
  /-- Between the name of a tag and its `>` or `/>`. -/
  | tagHeader (depth : Nat)
  /-- Between an opening tag and its closing tag. -/
  | tagContent (depth : Nat)
  /-- Between `{` and `}`. -/
  | expressionHole (depth : Nat) (owner : HoleOwner)
deriving DecidableEq, Repr

/-- How an owner is written in messages. -/
def HoleOwner.text : HoleOwner → String
  | .tagHeader => "TagHeader"
  | .tagContent => "TagContent"

namespace Mode

/-- The number of open tags. -/
def depth : Mode → Nat
  | .hostCode => 0
  | .tagHeader depth => depth
  | .tagContent depth => depth
  | .expressionHole depth _ => depth

/-- How a mode is written in messages. -/
def text : Mode → String
  | .hostCode => "HostCode"
  | .tagHeader depth => "TagHeader \x7b depth: " ++ toString depth ++ " \x7d"
  | .tagContent depth => "TagContent \x7b depth: " ++ toString depth ++ " \x7d"
  | .expressionHole depth owner =>
      "ExpressionHole \x7b depth: " ++ toString depth ++ ", return_to: " ++ owner.text ++ " \x7d"

end Mode

/-- A move between modes that only some modes allow. -/
inductive ModeChange where
  | openTag
  | enterContent
  | selfClose
  | closeTag
  | openHole
  | closeHole
  | returnFromHole
deriving DecidableEq, Repr

/-- How a move is written in messages. -/
def ModeChange.text : ModeChange → String
  | .openTag => "open a tag"
  | .enterContent => "enter tag content"
  | .selfClose => "self-close a tag"
  | .closeTag => "close a tag"
  | .openHole => "open an expression hole"
  | .closeHole => "close an expression hole"
  | .returnFromHole => "return from an expression hole"

/-- Why a move between modes was refused. -/
inductive ModeFault where
  /-- The mode does not allow the move. -/
  | notAllowed (change : ModeChange) (mode : Mode)
  /-- One more open tag would exceed the nesting budget. -/
  | tooManyTags (budget : Nat)
  /-- One more host expression would exceed the nesting budget. -/
  | tooManyExpressions (budget : Nat)
deriving DecidableEq, Repr

/-- What a refused move says. -/
def ModeFault.message : ModeFault → String
  | .notAllowed change mode => "Cannot " ++ change.text ++ " while in " ++ mode.text ++ " mode"
  | .tooManyTags budget =>
      "Maximum markup nesting depth of " ++ toString budget ++ " exceeded"
  | .tooManyExpressions budget =>
      "Maximum expression nesting depth of " ++ toString budget ++ " exceeded"

end EmbeddedMarkup
