import EmbeddedMarkup.Proofs.Text.Copy

/-!
# Text in front of other text

A text goes on where it used to end.  A cursor in it then has more characters ahead, at the same
position, and moves like before as long as it moves over characters that were there.  The text goes
on with a semicolon, which is no line feed, so that even a carriage return at its end still ends a
line.
-/

namespace EmbeddedMarkup
namespace Cursor

variable {c d : Cursor} {later text : List Char}

/-- The same cursor, where more text follows. -/
def followedBy (c : Cursor) (more : List Char) : Cursor :=
  ⟨c.rest ++ more, c.position⟩

@[simp] theorem rest_followedBy (more : List Char) : (c.followedBy more).rest = c.rest ++ more :=
  rfl

@[simp] theorem position_followedBy (more : List Char) :
    (c.followedBy more).position = c.position := rfl

theorem ofText_followedBy (text more : String) :
    (ofText text).followedBy more.toList = ofText (text ++ more) := by
  rw [followedBy, ofText, ofText, String.toList_append]

theorem advance_followedBy (inside : 0 < c.size) :
    (c.followedBy (';' :: later)).advance = c.advance.followedBy (';' :: later) := by
  obtain ⟨rest, place⟩ := c
  rcases rest with _ | ⟨ch, _ | ⟨next, rest⟩⟩
  · exact absurd inside (Nat.lt_irrefl 0)
  · simp only [followedBy, advance, List.singleton_append, List.nil_append, Cursor.mk.injEq,
      true_and, Position.past]
    split
    · rfl
    · split <;> simp
  · rfl

/-- Over characters that were there a cursor moves like before. -/
theorem advanceBy_followedBy {n : Nat} (inside : n ≤ c.size) :
    (c.followedBy (';' :: later)).advanceBy n = (c.advanceBy n).followedBy (';' :: later) := by
  induction n generalizing c with
  | zero => rfl
  | succ n ih =>
      have fits : n ≤ c.advance.size := by
        rw [advance_eq_advanceBy, size_advanceBy]
        omega
      rw [advanceBy, advanceBy, advance_followedBy (Nat.lt_of_lt_of_le n.succ_pos inside), ih fits]

theorem followedBy_le (reached : c ≤ d) :
    c.followedBy (';' :: later) ≤ d.followedBy (';' :: later) := by
  have moved := eq_advanceBy_size reached
  refine ⟨c.size - d.size, ?_⟩
  rw [advanceBy_followedBy (Nat.sub_le _ _), ← moved]

/-- A text that was passed still is. -/
theorem Passes.followedBy (passes : c.Passes text d) :
    (c.followedBy (';' :: later)).Passes text (d.followedBy (';' :: later)) := by
  obtain ⟨ahead, rfl⟩ := passes
  have fits : text.length ≤ c.size := by
    rw [size, ahead, List.length_append]
    exact Nat.le_add_right _ _
  refine ⟨?_, (advanceBy_followedBy fits).symm⟩
  rw [rest_followedBy, ahead, List.append_assoc, rest_followedBy]

theorem skipBlanks_followedBy :
    (c.followedBy (';' :: later)).skipBlanks = c.skipBlanks.followedBy (';' :: later) := by
  have passes := @Passes.followedBy _ _ later _ (passes_skipWhile c isBlank)
  rw [passes.skipBlanks_eq (List.all_eq_true.mp List.all_takeWhile)]
  refine skipBlanks_eq_self fun next ahead => ?_
  rw [peek?, rest_followedBy] at ahead
  cases rest : (c.skipWhile isBlank).rest with
  | nil =>
      rw [rest] at ahead
      cases ahead
      rfl
  | cons ch more =>
      rw [rest] at ahead
      cases ahead
      exact fails_of_peek?_skipWhile (peek?_eq_some_iff.mpr ⟨more, rest⟩)

/-- The end of a text is the same from everywhere in it. -/
theorem advanceBy_size_of_le (reached : c ≤ d) : d.advanceBy d.size = c.advanceBy c.size := by
  have fewer := size_le_of_le reached
  have moved := eq_advanceBy_size reached
  have onward : c.advanceBy c.size = (c.advanceBy (c.size - d.size)).advanceBy d.size := by
    rw [advanceBy_advanceBy, Nat.sub_add_cancel fewer]
  rw [onward, ← moved]

end Cursor
end EmbeddedMarkup
