import EmbeddedMarkup.Proofs.HostText.Opaque

/-!
# Units in front of an opaque token

A unit that ends in front of an opaque token was not decided by what the token holds: a scanner that
stands in front of the token may have looked at how it opens, but no further.
-/

namespace EmbeddedMarkup

variable {front later later' : List Char} {first : Char} {start : Bool} {opening : OpaqueOpening}

namespace OpaqueOpening

/-- A character that opens no token, and that no run of characters in host text holds. -/
structure Stops (stop : Char) : Prop where
  blank : isBlank stop = false
  inlineBlank : isInlineBlank stop = false
  lineEnd : isLineEnd stop = false
  identifierChar : isIdentifierChar stop = false
  wordChar : isHostWordChar stop = false
  numberChar : isHostNumberChar stop = false
  markup : (isIdentifierStart stop || stop == '>') = false
  parenthesis : stop ≠ ')'

theorem stops_first (opening : OpaqueOpening) : Stops opening.first := by
  have stops : ∀ stop ∈ ['\'', '"', '\x60', '/', '#', '<', '?'], Stops stop := by
    intro stop isMark
    simp only [List.mem_cons, List.not_mem_nil, or_false] at isMark
    rcases isMark with rfl | rfl | rfl | rfl | rfl | rfl | rfl <;> constructor <;> decide
  apply stops
  cases opening with
  | string quote isQuote => rcases isQuote with rfl | rfl | rfl <;> decide
  | lineComment hash => cases hash <;> decide
  | _ => simp [OpaqueOpening.first]

/-- The marks by which a scanner tells units from each other. -/
def leadingMarks : List (List Char) :=
  [['<', '?', 'p', 'h', 'p'], ['<', '?', '='], ['<', '<', '<'], ['?', '>'], ['/', '/'], ['/', '*']]

/-- The marks by which a scanner knows an opaque token. -/
def openingMarks : List (List Char) :=
  [['\''], ['"'], ['\x60'], ['/', '*'], ['#'], ['/', '/'], ['<', '<', '<'], ['?', '>']]

theorem exists_openingMark (opening : OpaqueOpening) :
    ∃ mark ∈ openingMarks, mark <+: opening.chars := by
  cases opening with
  | string quote isQuote =>
      rcases isQuote with rfl | rfl | rfl <;> exact ⟨_, by decide, List.prefix_rfl⟩
  | blockComment => exact ⟨['/', '*'], by decide, List.prefix_rfl⟩
  | lineComment hash =>
      cases hash with
      | true => exact ⟨['#'], by decide, List.prefix_rfl⟩
      | false => exact ⟨['/', '/'], by decide, List.prefix_rfl⟩
  | heredoc opening => exact ⟨['<', '<', '<'], by decide, opening.chars, rfl⟩
  | inlineText => exact ⟨['?', '>'], by decide, List.prefix_rfl⟩

/-- Whether a mark is ahead is decided in front of a token, or by how it opens. -/
theorem isPrefixOf_opening {mark : List Char} (isMark : mark ∈ leadingMarks) :
    mark.isPrefixOf (first :: (front ++ (opening.chars ++ later))) =
      mark.isPrefixOf (first :: (front ++ opening.chars)) := by
  have apart : ∀ mark ∈ leadingMarks, ∀ inner ∈ openingMarks, ¬inner <:+: mark.tail := by decide
  obtain ⟨inner, isOpening, within⟩ := opening.exists_openingMark
  have opened : first :: (front ++ opening.chars) <+:
      first :: (front ++ (opening.chars ++ later)) := by
    rw [← List.append_assoc]
    exact List.prefix_append (first :: (front ++ opening.chars)) later
  rw [Bool.eq_iff_iff, List.isPrefixOf_iff_prefix, List.isPrefixOf_iff_prefix]
  refine ⟨fun ahead => ?_, fun ahead => ahead.trans opened⟩
  rcases List.prefix_or_prefix_of_prefix ahead opened with done | ⟨more, rfl⟩
  · exact done
  · have inside : opening.chars <:+: front ++ opening.chars ++ more := ⟨front, more, rfl⟩
    exact absurd (within.isInfix.trans inside) (apart _ isMark inner isOpening)

theorem startsHostCode_opening :
    startsHostCode (first :: (front ++ (opening.chars ++ later))) =
      startsHostCode (first :: (front ++ opening.chars)) := by
  rw [startsHostCode, startsHostCode]
  exact congr (congrArg or (isPrefixOf_opening (by decide))) (isPrefixOf_opening (by decide))

theorem endsHostCode_opening :
    endsHostCode (first :: (front ++ (opening.chars ++ later))) =
      endsHostCode (first :: (front ++ opening.chars)) :=
  isPrefixOf_opening (by decide)

/-- No host code opens where an opaque token does. -/
theorem startsHostCode_chars : startsHostCode (opening.chars ++ later) = false := by
  cases opening with
  | string quote isQuote => rcases isQuote with rfl | rfl | rfl <;> rfl
  | lineComment hash => cases hash <;> rfl
  | _ => rfl

/-- Inline text that ends in front of a token ends there whatever the token holds. -/
theorem inlineTextLength_opening
    (within : inlineTextLength (front ++ (opening.chars ++ later)) ≤ front.length) :
    inlineTextLength (front ++ (opening.chars ++ later')) =
      inlineTextLength (front ++ (opening.chars ++ later)) := by
  induction front with
  | nil =>
      rcases inlineTextLength_eq_zero_iff.mp (Nat.le_zero.mp within) with ended | opens
      · cases ended
      · rw [List.nil_append, startsHostCode_chars] at opens
        cases opens
  | cons first front ih =>
      rw [List.cons_append, inlineTextLength, startsHostCode_opening] at within ⊢
      rw [List.cons_append, inlineTextLength, startsHostCode_opening]
      split
      · rfl
      · rename_i goesOn
        rw [if_neg goesOn] at within
        rw [ih (Nat.le_of_succ_le_succ within)]

theorem endsHostCode_chars :
    endsHostCode (opening.chars ++ later) = endsHostCode opening.chars := by
  cases opening with
  | string quote isQuote => rcases isQuote with rfl | rfl | rfl <;> rfl
  | lineComment hash => cases hash <;> rfl
  | _ => rfl

theorem lineCommentLength_chars :
    lineCommentLength (opening.chars ++ later) = 0 ↔ endsHostCode opening.chars = true := by
  have ends := @endsHostCode_chars later opening
  rw [chars, List.cons_append] at ends
  rw [chars, List.cons_append, lineCommentLength, opening.stops_first.lineEnd, Bool.false_or, ends]
  simp

/-- A line comment that ends in front of a token ends there whatever the token holds. -/
theorem lineCommentLength_opening
    (within : lineCommentLength (front ++ (opening.chars ++ later)) ≤ front.length) :
    lineCommentLength (front ++ (opening.chars ++ later')) =
      lineCommentLength (front ++ (opening.chars ++ later)) := by
  induction front with
  | nil =>
      have ended := lineCommentLength_chars.mp (Nat.le_zero.mp within)
      rw [List.nil_append, List.nil_append, lineCommentLength_chars.mpr ended,
        lineCommentLength_chars.mpr ended]
  | cons first front ih =>
      rw [List.cons_append, lineCommentLength, endsHostCode_opening] at within ⊢
      rw [List.cons_append, lineCommentLength, endsHostCode_opening]
      split
      · rfl
      · rename_i goesOn
        rw [if_neg goesOn] at within
        rw [ih (Nat.le_of_succ_le_succ within)]

end OpaqueOpening

/-- What is ahead ends among the next `size` characters. -/
def HostAhead.Within (size : Nat) : HostAhead → Prop
  | .markup => True
  | .pass unit => unit.tail ≤ size
  | .unterminated _ => False

@[simp] theorem HostAhead.within_pass {size : Nat} {unit : HostUnit} :
    (HostAhead.pass unit).Within size ↔ unit.tail ≤ size :=
  Iff.rfl

/-- What is ahead is the same in another text, if it ends soon enough. -/
def HostAhead.AgreesWithin (size : Nat) (ahead other : HostAhead) : Prop :=
  ahead.Within size → other = ahead

namespace HostAhead.AgreesWithin

variable {size : Nat} {ahead other : HostAhead}

theorem same : AgreesWithin size ahead ahead :=
  fun _ => rfl

theorem ite
    {condition : Prop}
    [Decidable condition]
    {ahead' other' : HostAhead}
    (yes : condition → AgreesWithin size ahead other)
    (no : ¬condition → AgreesWithin size ahead' other') :
    AgreesWithin size (if condition then ahead else ahead')
      (if condition then other else other') := by
  split
  · exact yes ‹_›
  · exact no ‹_›

end HostAhead.AgreesWithin

namespace OpaqueOpening

open HostAhead (AgreesWithin)

/-- A run of characters ends in front of a token. -/
theorem takeWhile_opening
    {p : Char → Bool}
    (stops : p opening.first = false) :
    (front ++ (opening.chars ++ later)).takeWhile p = front.takeWhile p :=
  takeWhile_stop stops

theorem agreesWithin_string {quote : Char} (plain : quote ≠ '\\') :
    AgreesWithin front.length (stringAhead quote (front ++ (opening.chars ++ later)))
      (stringAhead quote (front ++ (opening.chars ++ later'))) := by
  intro within
  unfold stringAhead at within ⊢
  cases closed : quotedTail? quote (front ++ (opening.chars ++ later)) with
  | none =>
      rw [closed] at within
      cases within
  | some length =>
      rw [closed] at within
      rw [quotedTail?_append plain (quotedTail?_of_append plain closed within)]

theorem agreesWithin_inlineText :
    AgreesWithin front.length
      (.pass ⟨inlineTextLength ((front ++ (opening.chars ++ later)).drop 1) + 1, true⟩)
      (.pass ⟨inlineTextLength ((front ++ (opening.chars ++ later')).drop 1) + 1, true⟩) := by
  intro within
  have more : 1 ≤ front.length := Nat.le_trans (Nat.le_add_left 1 _) within
  have fits : inlineTextLength ((front ++ (opening.chars ++ later)).drop 1) ≤
      (front.drop 1).length := by
    rw [List.length_drop]
    exact Nat.le_sub_of_add_le within
  rw [List.drop_append_of_le_length more] at fits ⊢
  rw [List.drop_append_of_le_length more, inlineTextLength_opening fits]

theorem agreesWithin_comment :
    AgreesWithin front.length (commentAhead start ((front ++ (opening.chars ++ later)).drop 1))
      (commentAhead start ((front ++ (opening.chars ++ later')).drop 1)) := by
  intro within
  unfold commentAhead at within ⊢
  cases closed : blockCommentTail? ((front ++ (opening.chars ++ later)).drop 1) with
  | none =>
      rw [closed] at within
      cases within
  | some length =>
      rw [closed] at within
      have more : 1 ≤ front.length := Nat.le_trans (Nat.le_add_left 1 length) within
      have fits : length ≤ (front.drop 1).length := by
        rw [List.length_drop]
        exact Nat.le_sub_of_add_le within
      rw [List.drop_append_of_le_length more] at closed ⊢
      rw [blockCommentTail?_append (blockCommentTail?_of_append closed fits)]

/-- The characters up to the first one of a token are the same whatever the token holds. -/
theorem head?_drop_opening {n : Nat} (inside : n ≤ front.length) :
    ((front ++ (opening.chars ++ later)).drop n).head? =
      ((front ++ (opening.chars ++ later')).drop n).head? := by
  rw [List.drop_append_of_le_length inside, List.drop_append_of_le_length inside]
  cases front.drop n <;> rfl

section Stages

variable {label cs : List Char} {behind before size : Nat} {quote : Option Char}

theorem le_of_linesAhead (within : (linesAhead label behind cs).Within size) :
    behind + 2 ≤ size := by
  unfold linesAhead at within
  split at within
  · exact Nat.le_trans (by dsimp only; omega) within
  · cases within

theorem le_of_labelAhead (within : (labelAhead quote before cs).Within size) :
    before + 2 ≤ size := by
  unfold labelAhead at within
  dsimp only at within
  split at within
  · exact within
  · have fits := le_of_linesAhead within
    omega

theorem agreesWithin_linesAhead (plain : opening.first ∉ label) :
    AgreesWithin (front.length + 2) (linesAhead label behind (front ++ (opening.chars ++ later)))
      (linesAhead label behind (front ++ (opening.chars ++ later'))) := by
  intro within
  have stops := opening.stops_first
  have started := Nat.le_of_add_le_add_right (le_of_linesAhead within)
  unfold linesAhead at within ⊢
  rw [List.drop_append_of_le_length started] at within ⊢
  rw [List.drop_append_of_le_length started]
  cases closed : heredocTail? label (front.drop behind ++ (opening.chars ++ later)) with
  | none =>
      rw [closed] at within
      cases within
  | some length =>
      have goes_on (later : List Char) :
          heredocTail? label (front.drop behind ++ (opening.chars ++ later)) = some length ∧
              length ≤ (front.drop behind).length ↔
            heredocTail? label (front.drop behind) = some length :=
        heredocTail?_stop plain stops.inlineBlank stops.identifierChar
      have fits : length ≤ (front.drop behind).length := by
        rw [closed, HostAhead.within_pass] at within
        rw [List.length_drop]
        dsimp only at within
        omega
      rw [((goes_on later').mpr ((goes_on later).mp ⟨closed, fits⟩)).1]

theorem agreesWithin_labelAhead :
    AgreesWithin (front.length + 2) (labelAhead quote before (front ++ (opening.chars ++ later)))
      (labelAhead quote before (front ++ (opening.chars ++ later'))) := by
  intro within
  have stops := opening.stops_first
  have started := Nat.le_of_add_le_add_right (le_of_labelAhead within)
  have label (later : List Char) :
      ((front ++ (opening.chars ++ later)).drop before).takeWhile isIdentifierChar =
        (front.drop before).takeWhile isIdentifierChar ∧
          before + ((front.drop before).takeWhile isIdentifierChar).length ≤ front.length :=
    run_stop stops.identifierChar started
  unfold labelAhead at within ⊢
  rw [(label later).1] at within ⊢
  rw [(label later').1]
  dsimp only at within ⊢
  rw [← @head?_drop_opening front later later' opening _ (label later).2]
  split
  · rfl
  · rename_i named
    rw [if_neg named] at within
    exact agreesWithin_linesAhead (not_mem_takeWhile stops.identifierChar) within

theorem agreesWithin_heredocAhead :
    AgreesWithin (front.length + 2) (heredocAhead (front ++ (opening.chars ++ later)))
      (heredocAhead (front ++ (opening.chars ++ later'))) := by
  have stops := opening.stops_first
  have inside := (List.takeWhile_prefix isInlineBlank (l := front)).length_le
  rw [heredocAhead_eq_labelAhead, heredocAhead_eq_labelAhead, takeWhile_opening stops.inlineBlank,
    takeWhile_opening stops.inlineBlank]
  dsimp only
  rw [← @head?_drop_opening front later later' opening _ inside]
  exact agreesWithin_labelAhead

end Stages

theorem agreesWithin_heredoc :
    AgreesWithin front.length (heredocAhead ((front ++ (opening.chars ++ later)).drop 2))
      (heredocAhead ((front ++ (opening.chars ++ later')).drop 2)) := by
  intro within
  have more := Nat.le_trans (Nat.le_add_left 2 _) (le_of_labelAhead within)
  rw [List.drop_append_of_le_length more] at within ⊢
  rw [List.drop_append_of_le_length more]
  apply agreesWithin_heredocAhead
  rwa [List.length_drop, Nat.sub_add_cancel more]

theorem agreesWithin_cast {condition : Bool} :
    AgreesWithin front.length
      (match if condition then castTail? (front ++ (opening.chars ++ later)) else none with
        | some length => .pass ⟨length, true⟩
        | none => .pass ⟨0, true⟩)
      (match if condition then castTail? (front ++ (opening.chars ++ later')) else none with
        | some length => .pass ⟨length, true⟩
        | none => .pass ⟨0, true⟩) := by
  have stops := opening.stops_first
  have cast (later : List Char) : castTail? (front ++ (opening.chars ++ later)) = castTail? front :=
    (castTail?_stop stops.inlineBlank stops.identifierChar stops.parenthesis).1
  rw [cast later, cast later']
  exact .same

/-- A unit that ends in front of a token is the same whatever the token holds. -/
theorem agreesWithin_hostAhead :
    AgreesWithin front.length (hostAhead start first (front ++ (opening.chars ++ later)))
      (hostAhead start first (front ++ (opening.chars ++ later'))) := by
  have stops := opening.stops_first
  have marked {mark : List Char} (isMark : mark ∈ leadingMarks) :
      mark.isPrefixOf (first :: (front ++ (opening.chars ++ later'))) =
        mark.isPrefixOf (first :: (front ++ (opening.chars ++ later))) := by
    rw [isPrefixOf_opening isMark, isPrefixOf_opening isMark]
  have markup : startsMarkup (first :: (front ++ (opening.chars ++ later'))) =
      startsMarkup (first :: (front ++ (opening.chars ++ later))) := by
    rw [chars, List.cons_append, List.cons_append, startsMarkup_stop stops.blank stops.markup,
      startsMarkup_stop stops.blank stops.markup]
  have ends : endsHostCode (first :: (front ++ (opening.chars ++ later'))) =
      endsHostCode (first :: (front ++ (opening.chars ++ later))) := by
    rw [endsHostCode_opening, endsHostCode_opening]
  have next := @head?_drop_opening front later later' opening 0 (Nat.zero_le _)
  rw [List.drop_zero, List.drop_zero] at next
  unfold hostAhead
  dsimp only
  rw [marked (by decide), marked (by decide), marked (by decide), marked (by decide),
    marked (by decide), markup, ends, next]
  refine .ite (fun _ => .same) fun _ => ?_
  refine .ite (fun _ => .same) fun _ => ?_
  refine .ite (fun _ => agreesWithin_heredoc) fun _ => ?_
  refine .ite (fun _ => .same) fun _ => ?_
  refine .ite (fun _ => agreesWithin_inlineText) fun _ => ?_
  refine .ite (fun _ within => ?_) fun _ => ?_
  · rw [lineCommentLength_opening within]
  refine .ite (fun _ => agreesWithin_comment) fun _ => ?_
  refine .ite (fun quote => agreesWithin_string ?_) fun _ => ?_
  · rintro rfl
    cases quote
  refine .ite (fun _ => ?_) fun _ => ?_
  · rw [takeWhile_opening stops.identifierChar, takeWhile_opening stops.identifierChar]
    exact .same
  refine .ite (fun _ => ?_) fun _ => ?_
  · rw [takeWhile_opening stops.numberChar, takeWhile_opening stops.numberChar]
    exact .same
  refine .ite (fun _ => ?_) fun _ => ?_
  · rw [wordAhead, wordAhead, takeWhile_opening stops.wordChar, takeWhile_opening stops.wordChar]
    exact .same
  refine .ite (fun _ => .same) fun _ => ?_
  refine .ite (fun _ => .same) fun _ => ?_
  exact agreesWithin_cast

end OpaqueOpening
end EmbeddedMarkup
