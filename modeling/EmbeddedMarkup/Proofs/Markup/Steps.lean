import EmbeddedMarkup.Markup.Reader

/-!
# Steps of the readers of markup

What a reader of markup takes in one step leaves the cursor farther than it was.
-/

namespace EmbeddedMarkup

variable {start here inside stop : Cursor}

/-- The bracket that opens a tag is passed. -/
theorem lt_of_opened (opened : start.eat? '<' = some inside) : start < inside :=
  Cursor.lt_of_eat? opened

/-- The bracket that ends a fragment's tag is passed. -/
theorem lt_of_closed (skipped : start ≤ here) (closed : here.eat? '>' = some stop) :
    start < stop :=
  Cursor.lt_of_le_of_lt skipped (Cursor.lt_of_eat? closed)

/-- The bracket that ends a header is passed. -/
theorem lt_of_headerEnd (skipped : start ≤ here) (next : here.peek? = some '>') :
    start < here.advance :=
  Cursor.lt_of_le_of_lt skipped (Cursor.lt_advance next)

/-- The slash and the bracket that end a self-closing tag are passed. -/
theorem lt_of_selfClosed (skipped : start ≤ here) (closed : here.eatText? "/>" = some stop) :
    start < stop :=
  Cursor.lt_of_le_of_lt skipped (Cursor.lt_of_eatText? (by decide) closed)

/-- The brace that opens a spread is passed. -/
theorem lt_of_brace (next : here.peek? = some '\x7b') : here < here.advance :=
  Cursor.lt_advance next

end EmbeddedMarkup
