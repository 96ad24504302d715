import EmbeddedMarkup.Proofs.Text.Place

/-!
# Stretches of text

The span between two cursors covers the characters between them, from the first one to the last one.
It tells where the first one stands and on which line the last one does, where a line break belongs
to the line that it ends.  That is right of every span that holds some text, unless it ends between
a carriage return and a line feed.
-/

namespace EmbeddedMarkup

/-- The span covers the characters of a text from `first` to `last`, and tells where they stand. -/
structure Span.Covers (text : String) (span : Span) (first last : Nat) : Prop where
  order : first ≤ last
  inside : last < text.length
  nonempty : span.start < span.stop
  within : span.stop ≤ text.utf8ByteSize
  start : span.position = Position.ofIndex text.toList first
  stop : span.stop = byteOffset text.toList (last + 1)
  /-- The breaks in front of the last character end the lines in front of its line. -/
  endLine : span.endLine = lineBreaks text.toList last + 1

/-- There is text between the cursors, and it does not end inside a line break. -/
def Cursor.Stretch (c d : Cursor) : Prop :=
  ∃ last ch, c ≤ last ∧ last.Passes [ch] d ∧ (ch = '\r' → d.peek? ≠ some '\n')

open Cursor

variable {c d : Cursor} {cs : List Char} {ch : Char} {text : String} {m n : Nat}

theorem lineBreaks_mono (order : m ≤ n) : lineBreaks cs m ≤ lineBreaks cs n :=
  Nat.count_monotone _ order

theorem one_le_column : 1 ≤ (Position.ofIndex cs n).column :=
  Nat.le_add_left _ _

/-- The last line of a span is that of its last character. -/
theorem endLine_between
    (order : m ≤ n)
    (found : cs[n]? = some ch)
    (whole : ¬OpensPair cs n)
    (forward : (Position.ofIndex cs m).offset < (Position.ofIndex cs (n + 1)).offset) :
    (Span.between (Position.ofIndex cs m) (Position.ofIndex cs (n + 1))).endLine =
      lineBreaks cs n + 1 := by
  have lines := @lineBreaks_mono cs m n order
  rw [Span.between]
  dsimp only
  by_cases ends : EndsLine cs n
  · rw [Position.ofIndex_succ_of_endsLine found ends] at forward ⊢
    rw [if_pos ⟨forward, rfl⟩, Nat.add_sub_cancel]
    exact Nat.max_eq_left (Nat.succ_le_succ lines)
  · have column := @one_le_column cs n
    rw [Position.ofIndex_succ_of_not_endsLine found ends] at forward ⊢
    rw [if_neg whole] at forward ⊢
    rw [if_neg fun starts => by have := starts.2; dsimp only at this; omega]
    rfl

namespace Cursor.Stretch

theorem lt (stretch : c.Stretch d) : c < d := by
  obtain ⟨last, ch, reached, passes, -⟩ := stretch
  exact Cursor.lt_of_le_of_lt reached (passes.lt (List.cons_ne_nil _ _))

end Cursor.Stretch

/-- A cursor in a text has moved over its first characters. -/
theorem exists_index_of_le (place : .ofText text ≤ c) :
    ∃ n ≤ text.length, c = (ofText text).advanceBy n ∧ text.length = n + c.size := by
  have reached := eq_advanceBy_size place
  have fewer := size_le_of_le place
  have size : (ofText text).size = text.length := String.length_toList
  rw [size] at reached fewer
  exact ⟨text.length - c.size, Nat.sub_le _ _, reached, by omega⟩

/--
The line and the column of a cursor in a text are those of a boundary between two characters, which
is where the cursor stands unless it stands between a carriage return and a line feed.
-/
theorem exists_boundary_of_le (place : .ofText text ≤ c) :
    ∃ n ≤ text.length, c.position.line = lineBreaks text.toList n + 1 ∧
      c.position.column = n - lineStart text.toList n + 1 ∧
      (c = (ofText text).advanceBy n ∨ c.peek? = some '\n') := by
  obtain ⟨n, inside, rfl, -⟩ := exists_index_of_le place
  rw [position_advanceBy_ofText text inside]
  have fits : n ≤ text.toList.length := by rwa [String.length_toList]
  by_cases paired : ∃ i, i + 1 = n ∧ OpensPair text.toList i
  · obtain ⟨i, rfl, opens⟩ := paired
    have inner : ∀ j, j + 1 = i → ¬OpensPair text.toList j := by
      rintro j rfl ⟨-, feed⟩
      rw [opens.1] at feed
      cases feed
    obtain ⟨line, column⟩ := Position.ofIndex_succ_of_opensPair opens
    refine ⟨i, Nat.le_of_succ_le inside, line,
      column.trans (Position.column_ofIndex (Nat.le_of_succ_le fits) inner), .inr ?_⟩
    rw [peek?, rest_advanceBy, List.head?_drop]
    exact opens.2
  · have whole : ∀ i, i + 1 = n → ¬OpensPair text.toList i :=
      fun i same opens => paired ⟨i, same, opens⟩
    exact ⟨n, inside, rfl, Position.column_ofIndex fits whole, .inl rfl⟩

/-- The span of a stretch covers its characters. -/
theorem exists_covers_of_passes
    {last : Cursor}
    (place : .ofText text ≤ c)
    (reached : c ≤ last)
    (passes : last.Passes [ch] d)
    (whole : ch = '\r' → d.peek? ≠ some '\n') :
    ∃ m n, (c.spanTo d).Covers text m n ∧
      text.toList[m]? = c.peek? ∧ text.toList[n]? = some ch := by
  obtain ⟨m, first, rfl, left⟩ := exists_index_of_le place
  obtain ⟨n, inside, rfl, left'⟩ := exists_index_of_le (Cursor.le_trans place reached)
  obtain ⟨ahead, rfl⟩ := passes
  have fewer := size_le_of_le reached
  have found : text.toList[n]? = some ch := by
    rw [← List.head?_drop]
    have ahead' := congrArg List.head? ahead
    rwa [rest_advanceBy] at ahead'
  have more : n < text.length := by
    rw [← String.length_toList]
    exact (List.getElem?_eq_some_iff.mp found).1
  have behind : ((ofText text).advanceBy n).advanceBy [ch].length =
      (ofText text).advanceBy (n + 1) := advanceBy_advanceBy _ _ _
  rw [behind] at ahead whole ⊢
  have order : m ≤ n := by omega
  have passed : (ofText text).advanceBy m < (ofText text).advanceBy (n + 1) := by
    refine ⟨⟨n + 1 - m, ?_⟩, ?_⟩
    · rw [advanceBy_advanceBy]
      congr 1
      omega
    · rw [size_advanceBy] at left ⊢
      rw [size_advanceBy]
      omega
  have forward := offset_lt_of_lt passed
  have start := @position_advanceBy_ofText m text first
  have stop := @position_advanceBy_ofText (n + 1) text more
  have ended := @position_advanceBy_ofText text.length text (Nat.le_refl _)
  refine ⟨m, n, ⟨order, more, forward, ?_, start, ?_, ?_⟩, ?_, found⟩
  · have onward : (ofText text).advanceBy (n + 1) ≤ (ofText text).advanceBy text.length :=
      ⟨text.length - (n + 1), by rw [advanceBy_advanceBy, Nat.add_sub_cancel' more]⟩
    have order := offset_le_of_le onward
    rw [ended] at order
    exact Nat.le_trans order (Nat.le_of_eq (byteOffset_length text))
  · exact congrArg Position.offset stop
  · rw [start, stop] at forward
    rw [Cursor.spanTo, start, stop]
    refine endLine_between order found ?_ forward
    rintro ⟨carriage, feed⟩
    rw [found] at carriage
    refine whole (Option.some.inj carriage) ?_
    rw [peek?, rest_advanceBy, List.head?_drop]
    exact feed
  · rw [peek?, rest_advanceBy, List.head?_drop]
    rfl

end EmbeddedMarkup
