import EmbeddedMarkup.Text.Character

/-!
# Block comments

A block comment runs from `/*` to the next `*/`.
-/

namespace EmbeddedMarkup

/-- How many characters the rest of a block comment takes, behind its `/*` and with its `*/`. -/
def blockCommentTail? : List Char → Option Nat
  | [] => none
  | '*' :: '/' :: _ => some 2
  | _ :: rest => (blockCommentTail? rest).map (· + 1)

end EmbeddedMarkup
