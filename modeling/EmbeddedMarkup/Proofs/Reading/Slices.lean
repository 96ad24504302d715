import EmbeddedMarkup.Proofs.Reading.Alone
import EmbeddedMarkup.Proofs.Reading.RoundTrip
import EmbeddedMarkup.Proofs.Text.Slice

/-!
# Reading the text of a node

The span of a node covers its own text: the characters that it covers are read as the node again,
and its spans count from the start of the slice.  The budget that is enough for the whole text is
enough for every slice of it.

A bare name alone is a constant.  For the name of a function or of a class that is as it should be;
but a name on which a property, a method or an entry is accessed has stayed a name too, so its slice
is read as something else.
-/

namespace EmbeddedMarkup

open Cursor

variable {text : String} {budget : Nat} {whole inner : Expression} {stop : Cursor}

/-- The slice of a node in a text that is read as an expression is read as the node. -/
theorem Reads.ofText_slice
    (reads : Reads budget (.expression 0 whole) (.ofText text) stop)
    (inside : whole.HostContains inner) :
    (∃ first last, inner.span.Covers text first last) ∧
      Expression.ofText (inner.span.slice text) budget =
        .ok (inner.nameAsConstant.respan (Span.moved inner.span.position Position.origin)) := by
  obtain ⟨a, b, place, span, opens, stops, alone⟩ := reads.nodesAlone inner inside
  have order := Cursor.le_of_lt stops.lt
  have ahead : (ofText (String.ofList (a.textTo b))).rest = a.textTo b := String.toList_ofList
  have copied : a.Copied b (.ofText (String.ofList (a.textTo b))) := {
    le := order
    ahead := by
      rw [ahead]
    opens := opens
    closes := stops
    column_pos := column_pos_ofText place
    column_pos' := column_pos_ofText (Cursor.le_refl _) }
  have ended : (a.copy (.ofText (String.ofList (a.textTo b))) b).rest = [] := by
    have rest := copied.rest_copy a.le_refl order
    rw [copy_self, ahead] at rest
    exact List.self_eq_append_right.mp rest
  have again := alone copied ended
  rw [copy_self] at again
  rw [span, slice_spanTo place order]
  refine ⟨?_, again.ofText_eq_ok (nextLexeme_endOfInput ended) (Nat.le_refl _)⟩
  obtain ⟨last, ch, reached, passes, visible, -⟩ := stops
  obtain ⟨m, n, covers, -⟩ := exists_covers_of_passes place reached passes fun carriage => by
    rw [carriage] at visible
    cases visible
  exact ⟨m, n, covers⟩

namespace Expression

/--
In an expression that is read from a text the span of every node in host code covers some characters
of the text, and they are read, within the same budget, as the node with its spans moved to the
start; but a bare name is read as the constant of this name.
-/
theorem ofText_slice_of_ofText
    (read : ofText text budget = .ok whole)
    (inside : whole.HostContains inner) :
    (∃ first last, inner.span.Covers text first last) ∧
      ofText (inner.span.slice text) budget =
        .ok (inner.nameAsConstant.respan (Span.moved inner.span.position Position.origin)) := by
  obtain ⟨stop, behind, reads, -⟩ := reads_of_ofText read
  exact reads.ofText_slice inside

/-- An access that is read again off its own text, and the name on which it is made. -/
theorem ofText_slice_of_ofText_namedProperty :
    ∃ budget first whole,
      ofText "A -> b" budget = .ok ⟨.property ⟨.bareName "A", first⟩ "b" false, whole⟩ ∧
        ofText (whole.slice "A -> b") budget =
          .ok (respan (Span.moved whole.position Position.origin)
            ⟨.property ⟨.bareName "A", first⟩ "b" false, whole⟩) ∧
        ofText (first.slice "A -> b") budget =
          .ok ⟨.constant "A", Span.moved first.position Position.origin first⟩ := by
  obtain ⟨budget, first, whole, read⟩ := exists_ofText_namedProperty
  refine ⟨budget, first, whole, read, (ofText_slice_of_ofText read .self).2, ?_⟩
  have inside : HostContains ⟨.property ⟨.bareName "A", first⟩ "b" false, whole⟩
      ⟨.bareName "A", first⟩ := .part List.mem_cons_self .self
  exact (ofText_slice_of_ofText read inside).2

/-- The name on which a property is accessed is not what is read off its text. -/
theorem ofText_slice_namedProperty_ne :
    ∃ budget first whole,
      ofText "A -> b" budget = .ok ⟨.property ⟨.bareName "A", first⟩ "b" false, whole⟩ ∧
        HostContains ⟨.property ⟨.bareName "A", first⟩ "b" false, whole⟩ ⟨.bareName "A", first⟩ ∧
        ∀ f, ofText (first.slice "A -> b") budget ≠ .ok (respan f ⟨.bareName "A", first⟩) := by
  obtain ⟨budget, first, whole, read⟩ := exists_ofText_namedProperty
  have inside : HostContains ⟨.property ⟨.bareName "A", first⟩ "b" false, whole⟩
      ⟨.bareName "A", first⟩ := .part List.mem_cons_self .self
  obtain ⟨stop, behind, reads, -⟩ := reads_of_ofText read
  refine ⟨budget, first, whole, read, inside, fun f same => ?_⟩
  have constant := (reads.ofText_slice inside).2
  rw [same] at constant
  cases constant

end Expression
end EmbeddedMarkup
