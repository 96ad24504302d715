import EmbeddedMarkup.HostText.Token
import EmbeddedMarkup.Proofs.Text.Comment

/-!
# Text in front of a character that stops

Runs of characters, labels and casts end in front of a character that none of them may hold.  What
follows such a character is not looked at, so in front of it a text is read as at its end.
-/

namespace EmbeddedMarkup

variable {cs later label : List Char} {ch stop : Char} {p : Char → Bool}

/-! ## Runs -/

theorem takeWhile_stop (stops : p stop = false) :
    (cs ++ stop :: later).takeWhile p = cs.takeWhile p := by
  rw [List.takeWhile_append, List.takeWhile_cons_of_neg (by simp [stops]), List.append_nil]
  split
  · rename_i whole
    exact ((List.takeWhile_prefix p).eq_of_length whole).symm
  · rfl

theorem not_mem_takeWhile (stops : p ch = false) : ch ∉ cs.takeWhile p := by
  intro member
  rw [List.all_eq_true.mp List.all_takeWhile ch member] at stops
  cases stops

/-- A run of characters that starts in the text ends in it. -/
theorem run_stop {n : Nat} (stops : p stop = false) (inside : n ≤ cs.length) :
    ((cs ++ stop :: later).drop n).takeWhile p = (cs.drop n).takeWhile p ∧
      n + ((cs.drop n).takeWhile p).length ≤ cs.length := by
  have fits := (List.takeWhile_prefix p (l := cs.drop n)).length_le
  rw [List.length_drop] at fits
  rw [List.drop_append_of_le_length inside, takeWhile_stop stops]
  exact ⟨rfl, by omega⟩

/-! ## Single characters and marks -/

theorem head?_stop (other : ch ≠ stop) :
    (cs ++ stop :: later).head? = some ch ↔ cs.head? = some ch := by
  cases cs with
  | nil => simpa using Ne.symm other
  | cons next cs => simp

theorem head?_drop_stop {n : Nat} (other : ch ≠ stop) (inside : n ≤ cs.length) :
    ((cs ++ stop :: later).drop n).head? = some ch ↔ (cs.drop n).head? = some ch := by
  rw [List.drop_append_of_le_length inside]
  exact head?_stop other

theorem isPrefixOf_stop {text : List Char} (plain : stop ∉ text) :
    text.isPrefixOf (cs ++ stop :: later) = text.isPrefixOf cs := by
  induction text generalizing cs with
  | nil => simp
  | cons ch text ih =>
      rw [List.mem_cons, not_or] at plain
      cases cs with
      | nil =>
          have other : (ch == stop) = false := beq_false_of_ne (Ne.symm plain.1)
          simp [List.isPrefixOf, other]
      | cons next cs => simp [List.isPrefixOf, ih plain.2]

theorem startsMarkup_stop
    (visible : isBlank stop = false)
    (plain : (isIdentifierStart stop || stop == '>') = false) :
    startsMarkup (ch :: (cs ++ stop :: later)) = startsMarkup (ch :: cs) := by
  by_cases bracket : ch = '<'
  · subst bracket
    rw [startsMarkup, startsMarkup, List.dropWhile_append]
    cases cs.dropWhile isBlank with
    | nil => simp [visible, plain]
    | cons => rfl
  · simp [startsMarkup, bracket]

/-! ## Labels and casts -/

theorem isLabelAhead_stop (plain : stop ∉ label) (ends : isIdentifierChar stop = false) :
    isLabelAhead label (cs ++ stop :: later) = isLabelAhead label cs := by
  rw [isLabelAhead, isLabelAhead, isPrefixOf_stop plain]
  cases ahead : label.isPrefixOf cs with
  | false => rfl
  | true =>
      obtain ⟨more, rfl⟩ := List.isPrefixOf_iff_prefix.mp ahead
      rw [List.append_assoc, List.drop_left, List.drop_left]
      cases more with
      | nil => simp [ends]
      | cons => rfl

theorem length_le_of_isLabelAhead (ahead : isLabelAhead label cs = true) :
    label.length ≤ cs.length :=
  (List.isPrefixOf_iff_prefix.mp (Bool.and_eq_true_iff.mp ahead).1).length_le

theorem heredocTail?_pos {length : Nat} (closed : heredocTail? label cs = some length) :
    0 < length := by
  cases cs with
  | nil => cases closed
  | cons ch rest =>
      rw [heredocTail?] at closed
      split at closed
      · cases closed
        omega
      · obtain ⟨inner, -, rfl⟩ := Option.map_eq_some_iff.mp closed
        exact Nat.succ_pos inner

/-- A heredoc is closed in a text exactly if it is closed as far where the text goes on. -/
theorem heredocTail?_stop
    {length : Nat}
    (plain : stop ∉ label)
    (visible : isInlineBlank stop = false)
    (ends : isIdentifierChar stop = false) :
    heredocTail? label (cs ++ stop :: later) = some length ∧ length ≤ cs.length ↔
      heredocTail? label cs = some length := by
  induction cs generalizing length with
  | nil =>
      constructor
      · rintro ⟨closed, nothing⟩
        exact absurd (heredocTail?_pos closed) (Nat.not_lt.mpr nothing)
      · intro closed
        cases closed
  | cons ch rest ih =>
      have fits : (rest.takeWhile isInlineBlank).length ≤ rest.length :=
        (List.takeWhile_prefix isInlineBlank).length_le
      rw [List.cons_append, heredocTail?, heredocTail?, takeWhile_stop visible,
        List.drop_append_of_le_length fits, isLabelAhead_stop plain ends, List.length_cons]
      split
      · rename_i closing
        refine and_iff_left_of_imp fun closed => ?_
        cases closed
        have labelled := length_le_of_isLabelAhead (Bool.and_eq_true_iff.mp closing).2
        rw [List.length_drop] at labelled
        omega
      · simp only [Option.map_eq_some_iff]
        constructor
        · rintro ⟨⟨inner, found, rfl⟩, fits⟩
          exact ⟨inner, ih.mp ⟨found, Nat.le_of_succ_le_succ fits⟩, rfl⟩
        · rintro ⟨inner, found, rfl⟩
          obtain ⟨closed, fits⟩ := ih.mpr found
          exact ⟨⟨inner, closed, rfl⟩, Nat.succ_le_succ fits⟩

theorem castTail?_stop
    (visible : isInlineBlank stop = false)
    (ends : isIdentifierChar stop = false)
    (other : stop ≠ ')') :
    castTail? (cs ++ stop :: later) = castTail? cs ∧
      ∀ length, castTail? cs = some length → length ≤ cs.length := by
  obtain ⟨blanks, inside⟩ := @run_stop cs later stop isInlineBlank 0 visible (Nat.zero_le _)
  rw [List.drop_zero, List.drop_zero] at blanks
  rw [Nat.zero_add, List.drop_zero] at inside
  obtain ⟨word, inside⟩ := @run_stop cs later stop isIdentifierChar _ ends inside
  obtain ⟨more, inside⟩ := @run_stop cs later stop isInlineBlank _ visible inside
  have closing := @head?_drop_stop cs later ')' stop _ (Ne.symm other) inside
  constructor
  · simp only [castTail?, blanks, word, more, closing]
  · intro length found
    simp only [castTail?] at found
    split at found
    · rename_i closed
      cases found
      have closed := of_decide_eq_true (Bool.and_eq_true_iff.mp closed).1
      rw [List.head?_drop] at closed
      exact (List.getElem?_eq_some_iff.mp closed).1
    · cases found

end EmbeddedMarkup
