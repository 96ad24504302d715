import EmbeddedMarkup.Text.Character

/-!
# Where markup starts

A tag starts with `<`, blank space if any, and the start of a name, or `>` for a fragment.  In
host code this is markup only where an expression may start; elsewhere `<` compares numbers.
-/

namespace EmbeddedMarkup

/-- The characters ahead look like an opening tag. -/
def startsMarkup : List Char → Bool
  | '<' :: rest =>
      match rest.dropWhile isBlank with
      | c :: _ => isIdentifierStart c || c == '>'
      | [] => false
  | _ => false

end EmbeddedMarkup
