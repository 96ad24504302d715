import EmbeddedMarkup.Text.Comment
import Mathlib.Data.List.Infix

/-!
# The end of a block comment

A block comment ends at its first `*/`, so its body is any text in which none stands.
-/

namespace EmbeddedMarkup

variable {text rest body : List Char} {ch : Char} {length : Nat}

/-- A text that may stand between `/*` and `*/`. -/
def IsCommentBody (body : List Char) : Prop :=
  ¬"*/".toList <:+: body

theorem isCommentBody_nil : IsCommentBody [] := by
  rintro ⟨before, behind, whole⟩
  simp at whole

/-- A character may stand in front of a body unless it makes an end with it. -/
theorem isCommentBody_cons :
    IsCommentBody (ch :: body) ↔ ¬(ch = '*' ∧ body.head? = some '/') ∧ IsCommentBody body := by
  have first : "*/".toList <+: ch :: body ↔ ch = '*' ∧ body.head? = some '/' := by
    cases body <;> simp [List.cons_prefix_cons, eq_comm]
  rw [IsCommentBody, List.infix_cons_iff, first, not_or, IsCommentBody]

theorem blockCommentTail?_cons (open_ : ¬(ch = '*' ∧ rest.head? = some '/')) :
    blockCommentTail? (ch :: rest) = (blockCommentTail? rest).map (· + 1) := by
  rw [blockCommentTail?]
  intro behind star slash
  exact open_ ⟨star, by rw [slash]; rfl⟩

/-- The rest of a comment is a body and the end behind it. -/
theorem blockCommentTail?_eq_some_iff :
    blockCommentTail? text = some length ↔
      ∃ body rest, IsCommentBody body ∧ text = body ++ '*' :: '/' :: rest ∧
        length = body.length + 2 := by
  constructor
  · intro closed
    fun_induction blockCommentTail? text generalizing length with
    | case1 => cases closed
    | case2 rest =>
        cases closed
        exact ⟨[], rest, isCommentBody_nil, rfl, rfl⟩
    | case3 ch text open_ ih =>
        obtain ⟨inner, found, rfl⟩ := Option.map_eq_some_iff.mp closed
        obtain ⟨body, rest, isBody, rfl, rfl⟩ := ih found
        refine ⟨ch :: body, rest, isCommentBody_cons.mpr ⟨?_, isBody⟩, rfl, rfl⟩
        rintro ⟨rfl, slash⟩
        obtain ⟨more, rfl⟩ := List.head?_eq_some_iff.mp slash
        exact open_ _ rfl rfl
  · rintro ⟨body, rest, isBody, rfl, rfl⟩
    induction body with
    | nil => rfl
    | cons ch body ih =>
        obtain ⟨open_, isBody⟩ := isCommentBody_cons.mp isBody
        rw [List.cons_append, blockCommentTail?_cons, ih isBody]
        · rfl
        · cases body with
          | nil => simp
          | cons => exact open_

/-- A comment has no end where all that follows could be its body. -/
theorem blockCommentTail?_eq_none_iff : blockCommentTail? text = none ↔ IsCommentBody text := by
  induction text with
  | nil => exact ⟨fun _ => isCommentBody_nil, fun _ => rfl⟩
  | cons ch text ih =>
      by_cases closes : ch = '*' ∧ text.head? = some '/'
      · obtain ⟨rfl, slash⟩ := closes
        obtain ⟨more, rfl⟩ := List.head?_eq_some_iff.mp slash
        refine ⟨fun none => (by cases none), fun isBody => ?_⟩
        exact absurd ⟨rfl, rfl⟩ (isCommentBody_cons.mp isBody).1
      · rw [blockCommentTail?_cons closes, Option.map_eq_none_iff, ih, isCommentBody_cons,
          and_iff_right closes]

/-- The rest of a comment ends with its first end. -/
theorem blockCommentTail?_append (closed : blockCommentTail? text = some length) :
    blockCommentTail? (text ++ rest) = some length := by
  obtain ⟨body, behind, isBody, rfl, same⟩ := blockCommentTail?_eq_some_iff.mp closed
  exact blockCommentTail?_eq_some_iff.mpr ⟨body, behind ++ rest, isBody, by simp, same⟩

theorem length_blockCommentTail?_pos (closed : blockCommentTail? text = some length) :
    2 ≤ length := by
  obtain ⟨body, _, _, _, rfl⟩ := blockCommentTail?_eq_some_iff.mp closed
  exact Nat.le_add_left 2 body.length

theorem length_blockCommentTail?_le (closed : blockCommentTail? text = some length) :
    length ≤ text.length := by
  obtain ⟨body, rest, _, rfl, rfl⟩ := blockCommentTail?_eq_some_iff.mp closed
  simp

/-- A block comment that ends inside a text is one of the text. -/
theorem blockCommentTail?_of_append
    (closed : blockCommentTail? (text ++ rest) = some length)
    (fits : length ≤ text.length) :
    blockCommentTail? text = some length := by
  obtain ⟨body, behind, isBody, whole, rfl⟩ := blockCommentTail?_eq_some_iff.mp closed
  have front : body ++ ['*', '/'] <+: text := by
    refine List.prefix_of_prefix_length_le ⟨behind, ?_⟩ (List.prefix_append text rest) (by simpa)
    rw [whole, List.append_assoc]
    rfl
  obtain ⟨more, rfl⟩ := front
  exact blockCommentTail?_eq_some_iff.mpr ⟨body, more, isBody, by simp, rfl⟩

/-- A block comment takes exactly a text if it is a body with the end behind it. -/
theorem blockCommentTail?_eq_length_iff :
    blockCommentTail? (text ++ rest) = some text.length ↔
      ∃ body, IsCommentBody body ∧ text = body ++ ['*', '/'] := by
  constructor
  · intro closed
    have inside := blockCommentTail?_of_append closed (Nat.le_refl _)
    obtain ⟨body, behind, isBody, rfl, whole⟩ := blockCommentTail?_eq_some_iff.mp inside
    rw [List.length_append, List.length_cons, List.length_cons] at whole
    obtain rfl : behind = [] := List.length_eq_zero_iff.mp (by omega)
    exact ⟨body, isBody, rfl⟩
  · rintro ⟨body, isBody, rfl⟩
    exact blockCommentTail?_eq_some_iff.mpr ⟨body, rest, isBody, by simp, by simp⟩

end EmbeddedMarkup
