import EmbeddedMarkup.Proofs.Text.Copy
import EmbeddedMarkup.Proofs.Text.Stretch
import Mathlib.Data.String.Basic

/-!
# Slices of text

The span between two cursors of a text covers the bytes of the characters between them.
-/

namespace EmbeddedMarkup

/-- The bytes of a text that a span covers. -/
def Span.slice (span : Span) (text : String) : String :=
  String.Pos.Raw.extract text ⟨span.start⟩ ⟨span.stop⟩

namespace Cursor

variable {text : String} {a b : Cursor}

/-- As many bytes lie in front of a cursor as the characters in front of it take. -/
theorem offset_eq_utf8Len (place : .ofText text ≤ a) :
    a.position.offset = String.utf8Len ((ofText text).textTo a) := by
  obtain ⟨n, fits, rfl, -⟩ := exists_index_of_le place
  rw [@position_advanceBy_ofText n text fits, textTo_advanceBy, ← String.utf8ByteSize_ofList]
  rfl

/-- The end of a text lies behind all its bytes. -/
theorem offset_eq_utf8ByteSize (place : .ofText text ≤ a) (ended : a.rest = []) :
    a.position.offset = text.utf8ByteSize := by
  have whole := textTo_append_rest place
  rw [ended, List.append_nil] at whole
  rw [offset_eq_utf8Len place, whole, ← String.utf8ByteSize_ofList]
  exact congrArg String.utf8ByteSize String.ofList_toList

/-- No cursor lies behind the end of its text. -/
theorem offset_le_utf8ByteSize (place : .ofText text ≤ a) :
    a.position.offset ≤ text.utf8ByteSize := by
  have onward := Cursor.le_trans place (a.le_advanceBy a.size)
  have ended : (a.advanceBy a.size).rest = [] := by
    rw [rest_advanceBy]
    exact List.drop_length
  rw [← offset_eq_utf8ByteSize onward ended]
  exact offset_le_of_le (a.le_advanceBy a.size)

/-- The span between two cursors covers the text between them. -/
theorem slice_spanTo (place : .ofText text ≤ a) (reached : a ≤ b) :
    (a.spanTo b).slice text = String.ofList (a.textTo b) := by
  have onward := Cursor.le_trans place reached
  have spelled : text = String.ofList ((ofText text).textTo a ++ a.textTo b ++ b.rest) := by
    rw [textTo_append_textTo place reached, textTo_append_rest onward]
    exact String.ofList_toList.symm
  have stop : b.position.offset =
      String.utf8Len ((ofText text).textTo a) + String.utf8Len (a.textTo b) := by
    rw [offset_eq_utf8Len onward, ← textTo_append_textTo place reached, String.utf8Len_append]
  rw [Span.slice, spanTo, Span.between, offset_eq_utf8Len place, stop]
  nth_rewrite 1 [spelled]
  exact String.extract_of_valid _ _ _

end Cursor
end EmbeddedMarkup
