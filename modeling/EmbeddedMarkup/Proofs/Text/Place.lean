import EmbeddedMarkup.Proofs.Text.Cursor
import Mathlib.Data.Nat.Count

/-!
# Positions counted in the text

The position of a character can be told from the whole text: how many bytes and how many line breaks
are in front of it, and how many characters of its line.  A cursor that comes to the character by
moving over one character after another has that position.

A line break is a line feed or a carriage return, but a carriage return in front of a line feed only
opens a break that the line feed completes, and it takes no column.
-/

namespace EmbeddedMarkup

variable (cs : List Char) (n : Nat)

/-- The character at an index is a carriage return in front of a line feed. -/
def OpensPair : Prop :=
  cs[n]? = some '\r' ∧ cs[n + 1]? = some '\n'

/-- The character at an index completes a line break. -/
def EndsLine : Prop :=
  cs[n]? = some '\n' ∨ cs[n]? = some '\r' ∧ cs[n + 1]? ≠ some '\n'

instance : DecidablePred (OpensPair cs) :=
  fun _ => inferInstanceAs (Decidable (_ ∧ _))

instance : DecidablePred (EndsLine cs) :=
  fun _ => inferInstanceAs (Decidable (_ ∨ _))

/-- How many line breaks are completed in front of an index. -/
def lineBreaks : Nat :=
  Nat.count (EndsLine cs) n

/-- Where the line of an index starts: behind the last line break in front of it. -/
def lineStart : Nat → Nat
  | 0 => 0
  | n + 1 => if EndsLine cs n then n + 1 else lineStart n

/-- The bytes in front of an index. -/
def byteOffset : Nat :=
  (String.ofList (cs.take n)).utf8ByteSize

/-- The position of an index, counted in the text. -/
def Position.ofIndex : Position where
  offset := byteOffset cs n
  line := lineBreaks cs n + 1
  column := Nat.count (fun i => lineStart cs n ≤ i ∧ ¬OpensPair cs i) n + 1

variable {cs n} {ch : Char}

theorem lineStart_le : lineStart cs n ≤ n := by
  induction n with
  | zero => exact Nat.le_refl 0
  | succ n ih =>
      rw [lineStart]
      split
      · exact Nat.le_refl _
      · exact Nat.le_succ_of_le ih

theorem byteOffset_succ (found : cs[n]? = some ch) :
    byteOffset cs (n + 1) = byteOffset cs n + ch.utf8Size := by
  obtain ⟨inside, rfl⟩ := List.getElem?_eq_some_iff.mp found
  rw [byteOffset, List.take_succ_eq_append_getElem inside, String.ofList_append,
    String.utf8ByteSize_append, byteOffset, ← String.singleton_eq_ofList,
    String.utf8ByteSize_singleton]

theorem byteOffset_length (text : String) :
    byteOffset text.toList text.length = text.utf8ByteSize := by
  rw [byteOffset, ← String.length_toList, List.take_length, String.ofList_toList]

/-- The first character of a pair does not complete the line break. -/
theorem OpensPair.not_endsLine (opens : OpensPair cs n) : ¬EndsLine cs n := by
  rintro (feed | ⟨-, alone⟩)
  · rw [opens.1] at feed
    cases feed
  · exact alone opens.2

namespace Position

/-- Behind a line break a line starts. -/
theorem ofIndex_succ_of_endsLine (found : cs[n]? = some ch) (ends : EndsLine cs n) :
    ofIndex cs (n + 1) = ⟨(ofIndex cs n).offset + ch.utf8Size, (ofIndex cs n).line + 1, 1⟩ := by
  have line : lineBreaks cs (n + 1) = lineBreaks cs n + 1 := by
    rw [lineBreaks, Nat.count_succ, if_pos ends, lineBreaks]
  have column : Nat.count (fun i => lineStart cs (n + 1) ≤ i ∧ ¬OpensPair cs i) (n + 1) = 0 := by
    rw [lineStart, if_pos ends, Nat.count_eq_card_filter_range, Finset.card_eq_zero,
      Finset.filter_eq_empty_iff]
    intro i before behind
    exact absurd (Finset.mem_range.mp before) (Nat.not_lt.mpr behind.1)
  rw [ofIndex, byteOffset_succ found, line, column]
  rfl

/-- Behind another character the line goes on. -/
theorem ofIndex_succ_of_not_endsLine (found : cs[n]? = some ch) (goesOn : ¬EndsLine cs n) :
    ofIndex cs (n + 1) =
      ⟨(ofIndex cs n).offset + ch.utf8Size, (ofIndex cs n).line,
        (ofIndex cs n).column + if OpensPair cs n then 0 else 1⟩ := by
  have line : lineBreaks cs (n + 1) = lineBreaks cs n := by
    rw [lineBreaks, Nat.count_succ, if_neg goesOn, lineBreaks, Nat.add_zero]
  have here : (lineStart cs n ≤ n ∧ ¬OpensPair cs n) ↔ ¬OpensPair cs n :=
    and_iff_right lineStart_le
  have column : Nat.count (fun i => lineStart cs (n + 1) ≤ i ∧ ¬OpensPair cs i) (n + 1) =
      Nat.count (fun i => lineStart cs n ≤ i ∧ ¬OpensPair cs i) n +
        if OpensPair cs n then 0 else 1 := by
    rw [lineStart, if_neg goesOn, Nat.count_succ]
    simp only [here, ite_not]
  rw [ofIndex, byteOffset_succ found, line, column, Nat.add_right_comm]
  rfl

/-- The position behind a character of the text is that of the next one. -/
theorem past_ofIndex (found : cs[n]? = some ch) :
    (ofIndex cs n).past ch cs[n + 1]? = ofIndex cs (n + 1) := by
  unfold past
  split
  · rename_i feed
    subst feed
    rw [ofIndex_succ_of_endsLine found (.inl found)]
  · rename_i no_feed
    split
    · rename_i carriage
      subst carriage
      split
      · rename_i pair
        have opens : OpensPair cs n := ⟨found, pair⟩
        rw [ofIndex_succ_of_not_endsLine found opens.not_endsLine, if_pos opens, Nat.add_zero]
      · rename_i alone
        rw [ofIndex_succ_of_endsLine found (.inr ⟨found, alone⟩)]
    · rename_i no_carriage
      have goesOn : ¬EndsLine cs n := by
        rintro (feed | ⟨carriage, -⟩)
        · exact no_feed (Option.some.inj (found.symm.trans feed))
        · exact no_carriage (Option.some.inj (found.symm.trans carriage))
      have alone : ¬OpensPair cs n := fun pair =>
        no_carriage (Option.some.inj (found.symm.trans pair.1))
      rw [ofIndex_succ_of_not_endsLine found goesOn, if_neg alone]

/-- In front of a character that completes no pair the characters of the line are counted. -/
theorem column_ofIndex (inside : n ≤ cs.length) (whole : ∀ i, i + 1 = n → ¬OpensPair cs i) :
    (ofIndex cs n).column = n - lineStart cs n + 1 := by
  induction n with
  | zero => rfl
  | succ n ih =>
      have found : cs[n]? = some cs[n] := List.getElem?_eq_getElem inside
      by_cases ends : EndsLine cs n
      · rw [ofIndex_succ_of_endsLine found ends, lineStart, if_pos ends, Nat.sub_self]
      · have inner : ∀ i, i + 1 = n → ¬OpensPair cs i := by
          rintro i rfl ⟨-, feed⟩
          exact ends (.inl feed)
        have started := @lineStart_le cs n
        rw [ofIndex_succ_of_not_endsLine found ends, if_neg (whole n rfl), lineStart, if_neg ends,
          ih (Nat.le_of_succ_le inside) inner]
        dsimp only
        omega

/-- Between the two characters of a line break nothing more of the line is counted. -/
theorem ofIndex_succ_of_opensPair (opens : OpensPair cs n) :
    (ofIndex cs (n + 1)).line = (ofIndex cs n).line ∧
      (ofIndex cs (n + 1)).column = (ofIndex cs n).column := by
  rw [ofIndex_succ_of_not_endsLine opens.1 opens.not_endsLine, if_pos opens]
  exact ⟨rfl, rfl⟩

end Position

section Append

variable {front : List Char}

/-- What follows a line feed changes nothing about the lines in front of it. -/
theorem endsLine_append_iff {i : Nat} (inside : i < front.length + 1) :
    EndsLine (front ++ '\n' :: cs) i ↔ EndsLine (front ++ ['\n']) i := by
  have split : front ++ '\n' :: cs = front ++ ['\n'] ++ cs := by
    rw [List.append_assoc, List.singleton_append]
  rcases Nat.lt_or_eq_of_le (Nat.le_of_lt_succ inside) with before | rfl
  · have next : i + 1 < (front ++ ['\n']).length := by
      rw [List.length_append]
      exact Nat.succ_lt_succ before
    rw [EndsLine, EndsLine, split, List.getElem?_append_left (Nat.lt_of_succ_lt next),
      List.getElem?_append_left next]
  · have feed (more : List Char) : (front ++ '\n' :: more)[front.length]? = some '\n' := by
      rw [List.getElem?_append_right (Nat.le_refl _), Nat.sub_self]
      rfl
    exact iff_of_true (.inl (feed cs)) (.inl (feed []))

/-- Behind a line feed positions count from what is in front of it. -/
theorem Position.ofIndex_append :
    ofIndex (front ++ '\n' :: cs) (front.length + 1) =
      ⟨byteOffset (front ++ ['\n']) (front.length + 1),
        lineBreaks (front ++ ['\n']) (front.length + 1) + 1, 1⟩ := by
  have found : (front ++ '\n' :: cs)[front.length]? = some '\n' := by
    rw [List.getElem?_append_right (Nat.le_refl _), Nat.sub_self]
    rfl
  have offset : byteOffset (front ++ '\n' :: cs) (front.length + 1) =
      byteOffset (front ++ ['\n']) (front.length + 1) := by
    rw [byteOffset, byteOffset, List.take_length_add_append, List.take_length_add_append]
    rfl
  have line : lineBreaks (front ++ '\n' :: cs) (front.length + 1) =
      lineBreaks (front ++ ['\n']) (front.length + 1) := by
    rw [lineBreaks, lineBreaks, Nat.count_eq_card_filter_range, Nat.count_eq_card_filter_range]
    congr 1
    refine Finset.filter_congr fun i member => ?_
    exact endsLine_append_iff (Finset.mem_range.mp member)
  have column := congrArg Position.column (ofIndex_succ_of_endsLine found (.inl found))
  rw [← offset, ← line]
  exact congrArg (Position.mk _ _) column

end Append

/-- A cursor that is moved over the first characters of a text has the position that is counted. -/
theorem Cursor.position_advanceBy_ofText (text : String) (inside : n ≤ text.length) :
    ((ofText text).advanceBy n).position = Position.ofIndex text.toList n := by
  induction n with
  | zero => rfl
  | succ n ih =>
      have inside' : n < text.toList.length := by
        rw [String.length_toList]
        exact inside
      have found := List.getElem?_eq_getElem inside'
      have ahead : ((ofText text).advanceBy n).rest =
          text.toList[n] :: text.toList.drop (n + 1) := by
        rw [rest_advanceBy]
        exact List.drop_eq_getElem_cons inside'
      rw [← advanceBy_advanceBy, ← advance_eq_advanceBy, position_advance ahead,
        ih (Nat.le_of_succ_le inside), List.head?_drop]
      exact Position.past_ofIndex found

end EmbeddedMarkup
