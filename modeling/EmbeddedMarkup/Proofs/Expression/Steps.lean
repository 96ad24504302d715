import EmbeddedMarkup.Expression.Outcome
import EmbeddedMarkup.Expression.Precedence
import EmbeddedMarkup.Proofs.Text.Cursor
import Mathlib.Order.Basic

/-!
# Steps of the readers of host expressions

Readers move a stream of tokens in steps.  Some of these move its cursor and some may leave it where
it is.  Streams are ordered by their cursors, so steps are put together as in any order.
-/

namespace EmbeddedMarkup
namespace TokenStream

variable {stream next : TokenStream}

/-- A stream comes before another if its cursor does. -/
instance : Preorder TokenStream :=
  Preorder.lift cursor

/-! ## What lies behind a later stream lies behind an earlier one -/

theorem lt_of_cursor_lt (passed : stream < next) :
    ∀ stop, next.cursor < stop → stream.cursor < stop :=
  fun _ => Cursor.lt_trans passed

theorem lt_of_cursor_le (passed : stream < next) :
    ∀ stop, next.cursor ≤ stop → stream.cursor < stop :=
  fun _ => Cursor.lt_of_lt_of_le passed

theorem le_of_cursor_le (passed : stream < next) :
    ∀ stop, next.cursor ≤ stop → stream.cursor ≤ stop :=
  fun _ => Cursor.le_trans (Cursor.le_of_lt passed)

theorem le_of_cursor_lt (reached : stream ≤ next) :
    ∀ stop, next.cursor < stop → stream.cursor ≤ stop :=
  fun _ passed => Cursor.le_trans reached (Cursor.le_of_lt passed)

theorem lt_moveTo
    {start stop : Cursor}
    (reached : stream.cursor ≤ start)
    (passed : start < stop) :
    stream.cursor < (stream.moveTo stop).cursor :=
  Cursor.lt_of_le_of_lt reached passed

theorem fresh_le_of_lt (remembers : Bool) (start : Cursor) :
    ∀ stop, (fresh remembers start).cursor < stop → (fresh remembers start).cursor ≤ stop :=
  fun _ => Cursor.le_of_lt

/-! ## Steps of a look -/

namespace View

variable (view : stream.View)

/-- A look does not lead back. -/
theorem le_here : stream.cursor ≤ view.here.cursor := by
  rw [view.here_cursor]

theorem lt_behind_of_binding
    {binding : Binding}
    (connects : view.token.lexeme.binding? = some binding) :
    stream.cursor < view.behind.cursor :=
  view.lt_behind (Lexeme.ne_endOfInput_of_binding? connects)

theorem lt_behind_of_variable
    {name : String}
    (found : view.token.lexeme = .variable name) :
    stream.cursor < view.behind.cursor :=
  view.lt_behind (by simp [found])

theorem lt_behind_of_int {value : Nat} (found : view.token.lexeme = .int value) :
    stream.cursor < view.behind.cursor :=
  view.lt_behind (by simp [found])

theorem lt_behind_of_float {value : Double} (found : view.token.lexeme = .float value) :
    stream.cursor < view.behind.cursor :=
  view.lt_behind (by simp [found])

theorem lt_behind_of_string {value : String} (found : view.token.lexeme = .string value) :
    stream.cursor < view.behind.cursor :=
  view.lt_behind (by simp [found])

end View

end TokenStream
end EmbeddedMarkup
