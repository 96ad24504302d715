import EmbeddedMarkup.Proofs.HostText.Places
import EmbeddedMarkup.Proofs.Markup.Tiling
import EmbeddedMarkup.Proofs.Reading.Leading

/-!
# Steps of a reader

From each place a reader goes on in one way, and its way leads up to the end of the text.  On its
way it gathers the elements that it goes over, in the order of the text.
-/

namespace EmbeddedMarkup

open Cursor

variable {budget : Nat} {start c d first : Cursor} {lexeme : Lexeme} {trail : Trail}
  {elements : List (Element Expression)}

namespace HostPlace

variable {place other last : HostPlace}

theorem Step.le (step : place.Step budget other) : place.cursor ≤ other.cursor := by
  cases step with
  | token _ next _ => exact next.le
  | markup skipped _ _ reads =>
      have passed := (span_of_reads_element reads).1
      exact Cursor.le_trans (le_of_skipTrivia skipped) (Cursor.le_of_lt passed)

/-- A reader goes over a token behind blank space. -/
theorem step_of_read
    {length : Nat}
    (read : LexemeReading.ofChars c.skipBlanks.rest = .found lexeme length)
    (absent : CommentReading.ofChars c.skipBlanks.rest = .absent)
    (admitted : trail.expected.admits lexeme = true) :
    Step budget ⟨elements, trail, c⟩
      ⟨elements, trail.behind (c.textTo c.skipBlanks) lexeme, c.skipBlanks.advanceBy length⟩ :=
  have skipped := skipTrivia_eq_skipBlanks absent
  .token skipped (nextLexeme_of_skipTrivia skipped read) admitted

/-- No token is expected where markup is and a tag is ahead. -/
theorem not_admits_of_startsMarkup
    (skipped : skipTrivia c = ⟨.ok (), first⟩)
    (allowed : trail.expected.allowsMarkup = true)
    (markup : startsMarkup first.rest = true)
    (next : NextLexeme c lexeme d) :
    trail.expected.admits lexeme = false := by
  obtain ⟨found, behind, next', isLess, -⟩ := nextLexeme_of_startsMarkup skipped markup
  obtain ⟨rfl, -⟩ := next.unique next'
  revert allowed
  rcases isLess with rfl | rfl <;> cases trail <;> decide

/-- A reader goes on in one way. -/
theorem step_rightUnique (budget : Nat) : Relator.RightUnique (Step budget) := by
  intro place other other' step step'
  cases step with
  | token skipped next admitted =>
      cases step' with
      | token skipped' next' admitted' =>
          rw [skipped] at skipped'
          cases skipped'
          obtain ⟨rfl, rfl⟩ := next.unique next'
          rfl
      | markup skipped' allowed markup =>
          rw [not_admits_of_startsMarkup skipped' allowed markup next] at admitted
          cases admitted
  | markup skipped allowed markup reads =>
      cases step' with
      | token _ next admitted =>
          rw [not_admits_of_startsMarkup skipped allowed markup next] at admitted
          cases admitted
      | markup skipped' _ _ reads' =>
          rw [skipped] at skipped'
          cases skipped'
          obtain ⟨passed, read⟩ := reads.yields_readElement (ModeStack.admits_initial budget)
          obtain ⟨passed', read'⟩ := reads'.yields_readElement (ModeStack.admits_initial budget)
          rw [read] at read'
          cases read'
          rfl

/-- At the end of a text no reader goes on. -/
theorem not_step_of_ended
    (ended : NextLexeme place.cursor .endOfInput d) :
    ¬place.Step budget other := by
  intro step
  cases step with
  | @token _ trail _ _ _ _ _ next admitted =>
      obtain ⟨rfl, -⟩ := next.unique ended
      revert admitted
      cases trail <;> decide
  | markup skipped _ markup _ =>
      rw [startsMarkup_eq_false skipped ended (by decide)] at markup
      cases markup

/-- A reader that goes on from a place does so over its next step. -/
theorem eq_or_reaches
    (step : place.Step budget last)
    (reaches : place.Reaches budget other) :
    other = place ∨ last.Reaches budget other := by
  rcases reaches.cases_head with rfl | ⟨next, step', onwards⟩
  · exact .inl rfl
  · exact .inr (step_rightUnique budget step' step ▸ onwards)

/-- A reader does not go on from the end of a text. -/
theorem eq_of_reaches_of_ended
    (ended : NextLexeme place.cursor .endOfInput d)
    (reaches : place.Reaches budget other) :
    other = place := by
  rcases reaches.cases_head with rfl | ⟨next, step, -⟩
  · rfl
  · exact absurd step (not_step_of_ended ended)

/-- What a reader comes to is on its way to the end of the text. -/
theorem onwards_of_reaches
    (whole : place.Reaches budget last)
    (ended : NextLexeme last.cursor .endOfInput d)
    (reached : place.Reaches budget other) :
    other.Reaches budget last := by
  rcases Relation.ReflTransGen.total_of_right_unique (step_rightUnique budget) reached whole with
    onwards | back
  · exact onwards
  · exact eq_of_reaches_of_ended ended back ▸ .refl

/-- On its way a reader goes over more elements, which start behind where it was. -/
theorem exists_later_of_reaches (reaches : place.Reaches budget other) :
    place.cursor ≤ other.cursor ∧
      ∃ later, other.elements = place.elements ++ later ∧
        ∀ element ∈ later, place.cursor.position.offset ≤ element.span.start := by
  induction reaches with
  | refl => exact ⟨Cursor.le_refl _, [], (List.append_nil _).symm, fun _ none => nomatch none⟩
  | tail _ step ih =>
      obtain ⟨ahead, later, same, behind⟩ := ih
      refine ⟨Cursor.le_trans ahead step.le, ?_⟩
      cases step with
      | token => exact ⟨later, same, behind⟩
      | @markup _ element _ _ first d skipped _ _ reads =>
          refine ⟨later ++ [element], ?_, ?_⟩
          · rw [← List.append_assoc]
            exact congrArg (· ++ [element]) same
          · intro found member
            rcases List.mem_append.mp member with present | isLast
            · exact behind found present
            · rw [List.mem_singleton.mp isLast, (span_of_reads_element reads).2]
              exact offset_le_of_le (Cursor.le_trans ahead (le_of_skipTrivia skipped))

/-- The elements that a reader goes over are in order, and in front of the place it comes to. -/
theorem inOrder_of_reaches (reached : (HostPlace.start start).Reaches budget place) :
    InOrder (place.elements.map Element.span) ∧
      ∀ element ∈ place.elements, element.span.stop ≤ place.cursor.position.offset := by
  induction reached with
  | refl => exact ⟨List.Pairwise.nil, fun _ none => nomatch none⟩
  | tail _ step ih =>
      cases step with
      | token _ next _ =>
          exact ⟨ih.1, fun element member =>
            Nat.le_trans (ih.2 element member) (offset_le_of_le next.le)⟩
      | @markup elements element _ c first d skipped _ _ reads =>
          obtain ⟨inOrder, before⟩ := ih
          obtain ⟨passed, span⟩ := span_of_reads_element reads
          have toFirst := offset_le_of_le (le_of_skipTrivia skipped)
          have toBehind := offset_le_of_le (Cursor.le_of_lt passed)
          constructor
          · rw [InOrder, List.map_append, List.pairwise_append]
            refine ⟨inOrder, List.pairwise_singleton _ _, ?_⟩
            intro earlier member last isLast
            obtain ⟨other, present, rfl⟩ := List.mem_map.mp member
            obtain rfl := List.mem_singleton.mp isLast
            rw [span]
            exact Nat.le_trans (before other present) toFirst
          · intro other member
            rcases List.mem_append.mp member with present | isLast
            · exact Nat.le_trans (before other present) (Nat.le_trans toFirst toBehind)
            · rw [List.mem_singleton.mp isLast, span]
              exact Nat.le_refl _

end HostPlace
end EmbeddedMarkup
