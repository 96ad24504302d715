import EmbeddedMarkup.Proofs.HostText.Seams
import EmbeddedMarkup.Proofs.Text.Place

/-!
# Documents one after the other

Two texts are joined by a semicolon and the opening of host code.  The document of the joined text
holds the elements of the first text as they are, and those of the second text behind the bytes and
lines that are in front of them.  Nothing is carried over from the first text: the scanner comes out
of whatever it was in, and reading an element leaves the modes as they were.
-/

namespace EmbeddedMarkup

open Cursor

variable {text : String} {later : List Char} {start stop : Cursor} {modes after : ModeStack}
  {element : Element Expression} {elements : List (Element Expression)} {scanner : HostScanner}
  {budget : Nat}

/-- The bytes and the lines of a text that is put in front of another one. -/
def Shift.behind (text : String) : Shift :=
  ⟨text.utf8ByteSize, lineBreaks text.toList text.length⟩

/-- What ends a text and opens host code for the next one. -/
def seam : String :=
  ";\n<?php\n"

/-- An outcome yields one value. -/
theorem Outcome.Yields.eq_of
    {α : Type}
    {Reached : Cursor → Prop}
    {outcome : Outcome Reached α}
    {value other : α}
    {after' : ModeStack}
    {stop' : Cursor}
    (yields : outcome.Yields value after stop)
    (yields' : outcome.Yields other after' stop') :
    value = other := by
  obtain ⟨reached, rfl⟩ := yields
  obtain ⟨reached', same⟩ := yields'
  exact (Outcome.success.inj same).1

/-- An element is read where the text goes on, too. -/
theorem readElement_followedBy
    (place : .ofText text ≤ start)
    (proper : modes.frames ≠ [])
    (read : (readElement hostDelegate modes start).Yields element after stop) :
    (readElement hostDelegate modes (start.followedBy (';' :: later))).Yields element after
      (stop.followedBy (';' :: later)) := by
  obtain ⟨-, reads⟩ := reads_of_readElement proper read
  have passes := passes_textTo reads.le
  have place' :
      .ofText (text ++ String.ofList (';' :: later)) ≤ start.followedBy (';' :: later) := by
    rw [← ofText_followedBy, String.toList_ofList]
    exact followedBy_le place
  obtain ⟨_, itself, -⟩ := readElement_copied place place proper read ⟨stop.rest, passes.1.symm⟩
  obtain ⟨stop', read', passes', -⟩ := readElement_copied place place' proper read
    ⟨stop.rest ++ ';' :: later, by rw [rest_followedBy, passes.1, List.append_assoc]⟩
  rw [position_followedBy, ← read.eq_of itself] at read'
  rw [(@Passes.followedBy _ _ later _ passes).2, ← passes'.2]
  exact read'

namespace Document

/-- The elements of a text are found where the text goes on, and then those behind the seam. -/
theorem elementsFrom_followedBy
    (opens : startsHostCode later = true)
    (place : Cursor.ofText text ≤ scanner.cursor)
    (proper : modes.frames ≠ [])
    (read : elementsFrom modes scanner = .ok elements) :
    elementsFrom modes (scanner.followedBy (';' :: '\n' :: later)) =
      (elementsFrom modes ⟨(((Cursor.ofText text).advanceBy text.length).followedBy
        (';' :: '\n' :: later)).advanceBy 2, true⟩).map (elements ++ ·) := by
  induction size : scanner.cursor.size using Nat.strongRecOn generalizing scanner elements with
  | ind size shorter =>
      subst size
      have next := HostScanner.next_followedBy opens scanner
      rw [elementsFrom_eq_match] at read
      cases found : scanner.next.1 with
      | error fault =>
          rw [found] at read
          cases read
      | ok start =>
          rw [found] at read next
          cases start with
          | none =>
              cases read
              have whole : scanner.cursor.advanceBy scanner.cursor.size =
                  (Cursor.ofText text).advanceBy text.length := by
                rw [advanceBy_size_of_le place, Cursor.size, Cursor.ofText, String.length_toList]
              rw [whole] at next
              rw [elementsFrom_congr next]
              exact (congrFun Except.map_id _).symm
          | some start =>
              dsimp only at read next
              have reached : scanner.cursor ≤ start :=
                @HostScanner.le_of_next _ scanner.next.2 _ (Prod.ext found rfl)
              have place' := Cursor.le_trans place reached
              cases success : readElement hostDelegate modes start with
              | failure fault =>
                  rw [success] at read
                  cases read
              | success element after stop passed =>
                  obtain rfl : modes = after :=
                    (reads_of_readElement proper ⟨passed, success⟩).1.symm
                  have fewer := Nat.lt_of_lt_of_le (size_lt_of_lt passed) (size_le_of_le reached)
                  have read' := @readElement_followedBy _ ('\n' :: later) _ _ _ _ _ place' proper
                    ⟨passed, success⟩
                  rw [success] at read
                  dsimp only at read
                  rw [elementsFrom_of_found (Prod.ext next rfl) read']
                  cases rest : elementsFrom modes ⟨stop, false⟩ with
                  | error fault =>
                      rw [rest] at read
                      cases read
                  | ok more =>
                      rw [rest] at read
                      cases read
                      have onward := @shorter _ fewer more ⟨stop, false⟩
                        (Cursor.le_trans place' (Cursor.le_of_lt passed)) rest rfl
                      refine (congrArg _ onward).trans ?_
                      generalize elementsFrom modes ⟨_, true⟩ = others
                      cases others <;> rfl

end Document

section Join

variable (first second : String)

/-- The first of two joined texts goes on with a seam. -/
theorem ofText_seam :
    ofText (first ++ seam ++ second) =
      (ofText first).followedBy (';' :: '\n' :: ("<?php\n".toList ++ second.toList)) := by
  rw [ofText, ofText, followedBy, String.toList_append, String.toList_append, List.append_assoc]
  rfl

theorem length_seam : (first ++ seam).length = first.length + 8 :=
  String.length_append first seam

/-- The second of two joined texts starts behind the bytes and the lines of the first one. -/
theorem cursor_behind_seam :
    (ofText (first ++ seam ++ second)).advanceBy (first ++ seam).length =
      (Shift.behind (first ++ seam)).cursor (.ofText second) := by
  have front : (first ++ seam).toList = (first ++ ";\n<?php").toList ++ ['\n'] := by
    rw [String.toList_append, String.toList_append, List.append_assoc]
    rfl
  have whole : (first ++ seam ++ second).toList =
      (first ++ ";\n<?php").toList ++ '\n' :: second.toList := by
    rw [String.toList_append, front, List.append_assoc, List.singleton_append]
  have length : (first ++ seam).length = (first ++ ";\n<?php").toList.length + 1 := by
    rw [← String.length_toList, front, List.length_append, List.length_singleton]
  have inside : (first ++ seam).length ≤ (first ++ seam ++ second).length := by
    rw [String.length_append (first ++ seam)]
    exact Nat.le_add_right _ _
  have rest : ((ofText (first ++ seam ++ second)).advanceBy (first ++ seam).length).rest =
      second.toList := by
    rw [rest_advanceBy, ofText, String.toList_append, ← String.length_toList, List.drop_left]
  have place := position_advanceBy_ofText (first ++ seam ++ second) inside
  rw [whole, length, Position.ofIndex_append, ← front, ← length, byteOffset_length] at place
  have moved : (Shift.behind (first ++ seam)).position Position.origin =
      ⟨(first ++ seam).utf8ByteSize, lineBreaks (first ++ seam).toList (first ++ seam).length + 1,
        1⟩ := by
    rw [Shift.position, Shift.behind, Position.origin, Nat.zero_add, Nat.add_comm 1]
  exact congr (congrArg Cursor.mk rest) (place.trans moved.symm)

/-- A scanner comes out of a seam in front of the second text, where an expression may start. -/
theorem next_behind_seam :
    HostScanner.next ⟨(ofText (first ++ seam ++ second)).advanceBy (first.length + 2), true⟩ =
      HostScanner.next ⟨(Shift.behind (first ++ seam)).cursor (.ofText second), true⟩ := by
  have behind (n : Nat) : ((ofText (first ++ seam ++ second)).advanceBy (first.length + n)).rest =
      (seam.toList ++ second.toList).drop n := by
    rw [rest_advanceBy, ofText, String.toList_append, String.toList_append, ← String.length_toList,
      List.append_assoc, List.drop_length_add_append]
  rw [← cursor_behind_seam, HostScanner.next_pass (behind 2) rfl rfl, advanceBy_advanceBy,
    Nat.add_assoc, HostScanner.next_blank (behind 7) rfl, length_seam, advance_eq_advanceBy,
    advanceBy_advanceBy]

end Join

/--
The document of two joined texts, of which the first one can be read, holds the elements of the
first one and then those of the second one, behind all that is in front of it.  A fault of the
second one is reported where it is then.
-/
theorem documentOfText_seam
    {first : String}
    {document : Document}
    (second : String)
    (read : Document.ofText first budget = .ok document) :
    Document.ofText (first ++ seam ++ second) budget =
      match Document.ofText second budget with
      | .ok later =>
          .ok ⟨document.elements ++
            later.elements.map (Element.respan (Shift.behind (first ++ seam)).span)⟩
      | .error fault => .error ((Shift.behind (first ++ seam)).fault fault) := by
  have whole : HostScanner.ofText (first ++ seam ++ second) =
      (HostScanner.ofText first).followedBy
        (';' :: '\n' :: ("<?php\n".toList ++ second.toList)) := by
    rw [HostScanner.ofText, ofText_seam]
    rfl
  have elements := Document.ofText_eq_ok_iff.mp read
  have joined := Document.elementsFrom_followedBy
    (@rfl _ (startsHostCode ("<?php\n".toList ++ second.toList))) (Cursor.le_refl (.ofText first))
    (List.cons_ne_nil _ _) elements
  have onward : Document.elementsFrom (.initial budget)
      ⟨(((Cursor.ofText first).advanceBy first.length).followedBy
        (';' :: '\n' :: ("<?php\n".toList ++ second.toList))).advanceBy 2, true⟩ =
      Document.elementsFrom (.initial budget)
        ((Shift.behind (first ++ seam)).scanner (.ofText second)) := by
    have inside : first.length ≤ (Cursor.ofText first).size := by
      rw [Cursor.size, Cursor.ofText, String.length_toList]
    rw [← advanceBy_followedBy inside, advanceBy_advanceBy, ← ofText_seam]
    exact Document.elementsFrom_congr (next_behind_seam first second)
  have tracks := @Document.tracks_elementsFrom (Shift.behind (first ++ seam)) budget
    (.initial budget) (.ofText second) (List.cons_ne_nil _ _) (Nat.le_refl _)
  rw [ModeStack.withBudget_initial] at tracks
  rw [Document.ofText, Document.ofText, whole, joined, onward]
  generalize Document.elementsFrom (.initial budget) (.ofText second) = outcome at tracks ⊢
  generalize Document.elementsFrom (.initial budget) ((Shift.behind (first ++ seam)).scanner _) =
    outcome' at tracks ⊢
  cases tracks with
  | ok same =>
      rw [same]
      rfl
  | error => rfl
  | exceeded _ less => exact absurd less (Nat.lt_irrefl budget)

/-- A line comment that reaches up to a seam hides nothing behind it. -/
theorem documentOfText_seam_comment :
    ∃ budget first second,
      Document.ofText "<b /> // <i>" budget = .ok first ∧
        Document.ofText "<b />" budget = .ok second ∧
        Document.ofText ("<b /> // <i>" ++ seam ++ "<b />") budget =
          .ok ⟨first.elements ++
            second.elements.map (Element.respan (Shift.behind ("<b /> // <i>" ++ seam)).span)⟩ ∧
        first.elements.length = 1 ∧ second.elements.length = 1 := by
  have commented :
      (HostScanner.next ⟨(ofText "<b /> // <i>").advanceBy 5, false⟩).1 = .ok none := by
    have passed : HostScanner.next ⟨(ofText "<b /> // <i>").advanceBy 5, false⟩ =
        HostScanner.next ⟨(ofText "<b /> // <i>").advanceBy 12, false⟩ :=
      (HostScanner.next_blank rfl rfl).trans (HostScanner.next_pass rfl rfl rfl)
    rw [passed, HostScanner.next_of_ended rfl]
  obtain ⟨level, first_read⟩ :=
    @Document.exists_ofText_element "<b /> // <i>" _ _ _ isElement_emptyTag rfl commented
  obtain ⟨level', second_read⟩ :=
    @Document.exists_ofText_element "<b />" _ [] _ isElement_emptyTag rfl
      (congrArg Prod.fst (HostScanner.next_of_ended rfl))
  obtain ⟨first, read⟩ := first_read (max level level') (Nat.le_max_left _ _)
  obtain ⟨second, read'⟩ := second_read (max level level') (Nat.le_max_right _ _)
  refine ⟨max level level', ⟨[first]⟩, ⟨[second]⟩, read, read', ?_, rfl, rfl⟩
  rw [documentOfText_seam "<b />" read, read']

end EmbeddedMarkup
