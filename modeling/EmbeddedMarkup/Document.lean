import EmbeddedMarkup.Expression.Source
import EmbeddedMarkup.HostText.Scanner

/-!
# Documents

A document is the markup of a source, region by region.  Markup inside the expressions of a
region belongs to that region.
-/

namespace EmbeddedMarkup

/-- The outermost elements of a source, in order. -/
structure Document where
  elements : List (Element Expression)

namespace Document

/-- The elements that a scanner still has ahead. -/
def elementsFrom (modes : ModeStack) (scanner : HostScanner) :
    Except Fault (List (Element Expression)) :=
  match _found : scanner.next with
  | (.error fault, _) => .error (fault.map .hostText)
  | (.ok none, _) => .ok []
  | (.ok (some start), scanner) =>
      match readElement hostDelegate modes start with
      | .failure fault _ => .error fault
      | .success element modes stop _passed =>
          (elementsFrom modes (scanner.resume stop)).map (element :: ·)
termination_by scanner.cursor.size
decreasing_by
  exact Nat.lt_of_lt_of_le (Cursor.size_lt_of_lt _passed)
    (Cursor.size_le_of_le (HostScanner.le_of_next _found))

/-- The document in a text. -/
def ofText (text : String) (budget : Nat) : Except Fault Document :=
  (elementsFrom (.initial budget) (.ofText text)).map fun elements => ⟨elements⟩

end Document
end EmbeddedMarkup
