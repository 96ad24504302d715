import EmbeddedMarkup.Proofs.HostText.Tracking
import EmbeddedMarkup.Proofs.Reading.Layout

/-!
# Where a document stands in its text

Every node of a document covers the characters that its span says it does, from its first to its
last one.  The spans of the parts of a node lie in the span of the node, and of two parts the one
that is written first ends before the other starts.  The same holds of the elements of the document
themselves, and every element in it goes from a `<` to a `>`.
-/

namespace EmbeddedMarkup

open Cursor

variable {text : String} {budget : Nat} {c d : Cursor} {trees : List SpanTree}

/--
The spans of a tree are right in a text: each covers some of it, and the parts of a node are in
order inside the node.
-/
inductive SpanTree.IsPlaced (text : String) : SpanTree → Prop
  | node {span : Span} {parts : List SpanTree} {first last : Nat} :
      span.Covers text first last →
      (∀ part ∈ parts, span.start ≤ part.span.start ∧ part.span.stop ≤ span.stop) →
      InOrder (parts.map SpanTree.span) →
      (∀ part ∈ parts, part.IsPlaced text) →
      IsPlaced text (.node span parts)

/-- Trees that are laid out in a text are placed in it, inside and in order. -/
theorem LaidOut.isPlaced (laid : LaidOut c d trees) (place : .ofText text ≤ c) :
    (∀ tree ∈ trees, tree.IsPlaced text ∧
        c.position.offset ≤ tree.span.start ∧ tree.span.stop ≤ d.position.offset) ∧
      InOrder (trees.map SpanTree.span) := by
  induction laid with
  | nil => exact ⟨(fun _ none => nomatch none), List.Pairwise.nil⟩
  | @cons c a b d parts more reached stretch inside rest ih ih' =>
      have place_first := Cursor.le_trans place reached
      have passed := Cursor.le_of_lt stretch.lt
      obtain ⟨placed, order⟩ := ih place_first
      obtain ⟨placed', order'⟩ := ih' (Cursor.le_trans place_first passed)
      have front := offset_le_of_le reached
      have forward := offset_le_of_le passed
      have onward := offset_le_of_le rest.le
      obtain ⟨last, ch, before, passes, whole⟩ := stretch
      obtain ⟨m, n, covers, -⟩ := exists_covers_of_passes place_first before passes whole
      have here : (SpanTree.node (a.spanTo b) parts).IsPlaced text :=
        .node covers (fun part member => (placed part member).2) order
          fun part member => (placed part member).1
      refine ⟨List.forall_mem_cons.mpr ⟨⟨here, front, onward⟩, ?_⟩, ?_⟩
      · intro tree member
        obtain ⟨later, start, stop⟩ := placed' tree member
        exact ⟨later, Nat.le_trans front (Nat.le_trans forward start), stop⟩
      · rw [List.map_cons]
        refine List.Pairwise.cons ?_ order'
        intro span member
        obtain ⟨tree, present, rfl⟩ := List.mem_map.mp member
        exact (placed' tree present).2.1

/-- The element goes from a `<` to a `>` of the text. -/
def Element.IsEnclosed (text : String) (element : Element Expression) : Prop :=
  ∃ first last, element.span.Covers text first last ∧
    text.toList[first]? = some '<' ∧ text.toList[last]? = some '>'

/-- Every element that is read is enclosed. -/
theorem isEnclosed_of_reads
    {level : Nat}
    {element : Element Expression}
    (place : .ofText text ≤ c)
    (reads : Reads level (.element element) c d) :
    element.IsEnclosed text := by
  obtain ⟨last, reached, closed⟩ := exists_bracket_of_reads_element reads
  obtain ⟨m, n, covers, first, final⟩ := exists_covers_of_passes place reached
    (passes_singleton.mpr (eat?_eq_some_iff.mp closed)) fun same => absurd same (by decide)
  rw [opens_of_reads_element reads] at first
  rw [← (span_of_reads_element reads).2] at covers
  exact ⟨m, n, covers, first, final⟩

namespace Document

/-- The elements that a scanner has ahead stand one behind the other, and each of them is read. -/
theorem laidOut_elementsFrom
    {scanner : HostScanner}
    {elements : List (Element Expression)}
    (read : elementsFrom (.initial budget) scanner = .ok elements) :
    ∃ stop, LaidOut scanner.cursor stop (elements.map Element.spanTree) ∧
      ∀ element ∈ elements, ∃ level first behind,
        scanner.cursor ≤ first ∧ Reads level (.element element) first behind := by
  induction elements generalizing scanner with
  | nil => exact ⟨scanner.cursor, .nil (Cursor.le_refl _), (fun _ none => nomatch none)⟩
  | cons _ _ ih =>
      rcases elementsFrom_cases read with ⟨none, -⟩ | ⟨first, stopped, element, behind, more, same,
        found, passed, reads, later⟩
      · cases none
      · obtain ⟨rfl, rfl⟩ := List.cons.inj same
        have reached := HostScanner.le_of_next found
        obtain ⟨stop, laid, later⟩ := ih later
        refine ⟨stop, (LaidOut.of_le reads.laysOut reached).append laid, ?_⟩
        refine List.forall_mem_cons.mpr ⟨⟨_, first, behind, reached, reads⟩, ?_⟩
        intro other member
        obtain ⟨level, first', behind', onward, reads'⟩ := later other member
        exact ⟨level, first', behind', Cursor.le_trans reached
          (Cursor.le_trans (Cursor.le_of_lt passed) onward), reads'⟩

/--
In a document the spans of all nodes are right: each covers the characters it says, the parts of a
node lie in the node and in order, as the elements of the document do, and every element goes from
a `<` to a `>`.
-/
theorem isPlaced_of_ofText
    {document : Document}
    (read : ofText text budget = .ok document) :
    InOrder (document.elements.map Element.span) ∧
      ∀ element ∈ document.elements,
        element.spanTree.IsPlaced text ∧ element.All (Element.IsEnclosed text) := by
  obtain ⟨stop, laid, reads⟩ := laidOut_elementsFrom (ofText_eq_ok_iff.mp read)
  obtain ⟨placed, order⟩ := laid.isPlaced (Cursor.le_refl _)
  have spans : (document.elements.map Element.spanTree).map SpanTree.span =
      document.elements.map Element.span := by
    rw [List.map_map]
    refine List.map_congr_left fun element _ => ?_
    obtain ⟨_, _, _, _, _⟩ := element
    rw [Function.comp_apply, Element.spanTree_mk]
    rfl
  rw [spans] at order
  refine ⟨order, fun element member => ⟨?_, ?_⟩⟩
  · exact (placed _ (List.mem_map_of_mem member)).1
  · obtain ⟨level, first, behind, place, reads⟩ := reads element member
    exact reads.all (fun _ _ _ _ => isEnclosed_of_reads) place

end Document

/-- The nodes of a document with an attribute, a text, a hole and an element inside. -/
theorem isPlaced_of_documentOfText_greeting :
    ∃ budget element,
      Document.ofText "<a x = '1'> hi {$y}<b /></a >" budget = .ok ⟨[element]⟩ ∧
        element.spanTree.IsPlaced "<a x = '1'> hi {$y}<b /></a >" ∧
        element.IsEnclosed "<a x = '1'> hi {$y}<b /></a >" := by
  have written : IsElement "<a x = '1'> hi {$y}<b /></a >".toList greeting :=
    writes_greeting.isReadAs
  obtain ⟨budget, read⟩ :=
    @Document.exists_ofText_element "<a x = '1'> hi {$y}<b /></a >" _ [] _ written
      (List.append_nil _).symm (congrArg Prod.fst (HostScanner.next_of_ended rfl))
  obtain ⟨element, read⟩ := read budget (Nat.le_refl _)
  obtain ⟨-, placed⟩ := Document.isPlaced_of_ofText read
  obtain ⟨whole, enclosed⟩ := placed element List.mem_cons_self
  exact ⟨budget, element, read, whole, enclosed element .self⟩

end EmbeddedMarkup
