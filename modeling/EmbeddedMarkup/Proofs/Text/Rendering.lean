import EmbeddedMarkup.Proofs.Text.LineEnds

/-!
# Texts that are written again

Two texts are read side by side, of which the second is the first one written again.  A rendering
says which cursors stand at the same place in both texts, and where a place of the first text is in
the second one.

Aligned cursors stay aligned as long as they move over the same characters.  So a reader that tells
its moves from the characters alone moves aligned cursors to aligned cursors.
-/

namespace EmbeddedMarkup

/-- Two texts of which the second is the first one written again. -/
structure Rendering where
  /-- How the line ends of the first text are written in the second one. -/
  ends : LineEnds
  /-- The second cursor is in the second text where the first cursor is in the first text. -/
  Aligned : Cursor → Cursor → Prop
  /-- Where a position of the first text is in the second one. -/
  place : Position → Position
  /-- Where a span of the first text is in the second one. -/
  span : Span → Span
  /-- The same characters are ahead. -/
  rest_eq : ∀ {c c' : Cursor}, Aligned c c' → c'.rest = ends.write c.rest
  /-- The cursors are at the same place. -/
  position_eq : ∀ {c c' : Cursor}, Aligned c c' → c'.position = place c.position
  /-- Behind the same characters cursors are aligned. -/
  aligned_advanceBy : ∀ {c c' : Cursor}, Aligned c c' → ∀ n,
    Aligned (c.advanceBy n) (c'.advanceBy (ends.reach c.rest n))
  /-- A span is where its ends are. -/
  between_place : ∀ first last, Span.between (place first) (place last) = span (.between first last)
  /-- A span starts where its start is. -/
  position_span : ∀ stretch, (span stretch).position = place stretch.position

namespace Rendering

variable {r : Rendering} {c c' d d' : Cursor} {ch : Char} {text : List Char} {p : Char → Bool}

theorem spanTo_eq (aligned : r.Aligned c c') (aligned' : r.Aligned d d') :
    c'.spanTo d' = r.span (c.spanTo d) := by
  rw [Cursor.spanTo, Cursor.spanTo, r.position_eq aligned, r.position_eq aligned', r.between_place]

theorem isAtEnd_eq (aligned : r.Aligned c c') : c'.isAtEnd = c.isAtEnd := by
  rw [Cursor.isAtEnd, Cursor.isAtEnd, r.rest_eq aligned, Bool.eq_iff_iff, List.isEmpty_iff,
    List.isEmpty_iff, LineEnds.write_eq_nil_iff]

theorem peek?_eq_some_iff (aligned : r.Aligned c c') (inLine : isLineEnd ch = false) :
    c'.peek? = some ch ↔ c.peek? = some ch := by
  rw [Cursor.peek?, Cursor.peek?, r.rest_eq aligned, LineEnds.head?_write_eq_some_iff inLine]

/-- Where no blank is ahead, the same character is next. -/
theorem peek?_eq
    (aligned : r.Aligned c c')
    (visible : ∀ ch, c.peek? = some ch → isBlank ch = false) :
    c'.peek? = c.peek? := by
  cases next : c.peek? with
  | none =>
      rw [Cursor.peek?, List.head?_eq_none_iff] at next
      rw [Cursor.peek?, r.rest_eq aligned, next]
      rfl
  | some ch => exact (peek?_eq_some_iff aligned (isLineEnd_of_isBlank (visible ch next))).mpr next

theorem startsWith_eq {text : String} (aligned : r.Aligned c c') (inLine : InLine text.toList) :
    c'.startsWith text = c.startsWith text := by
  rw [Cursor.startsWith, Cursor.startsWith, r.rest_eq aligned, LineEnds.isPrefixOf_write inLine]

/-- Both cursors move over characters of a line. -/
theorem advanceBy_length
    (aligned : r.Aligned c c')
    (opens : text <+: c.rest)
    (inLine : InLine text) :
    r.Aligned (c.advanceBy text.length) (c'.advanceBy text.length) := by
  have moved := r.aligned_advanceBy aligned text.length
  rwa [LineEnds.reach_of_opens opens inLine] at moved

theorem advance
    (aligned : r.Aligned c c')
    (next : c.peek? = some ch)
    (inLine : isLineEnd ch = false) :
    r.Aligned c.advance c'.advance := by
  obtain ⟨more, ahead⟩ := Cursor.peek?_eq_some_iff.mp next
  exact @advanceBy_length r c c' [ch] aligned ⟨more, ahead.symm⟩
    (inLine_cons.mpr ⟨inLine, List.forall_mem_nil _⟩)

/-- Both cursors skip what passes a test. -/
theorem skipWhile (aligned : r.Aligned c c') (blind : LineBlind p) :
    r.Aligned (c.skipWhile p) (c'.skipWhile p) := by
  rw [Cursor.skipWhile, Cursor.skipWhile, Cursor.textWhile, Cursor.textWhile, r.rest_eq aligned,
    LineEnds.length_takeWhile_write blind]
  exact r.aligned_advanceBy aligned _

theorem skipBlanks (aligned : r.Aligned c c') : r.Aligned c.skipBlanks c'.skipBlanks :=
  skipWhile aligned rfl

theorem eat? (aligned : r.Aligned c c') (inLine : isLineEnd ch = false) :
    Option.Rel r.Aligned (c.eat? ch) (c'.eat? ch) := by
  by_cases next : c.peek? = some ch
  · rw [Cursor.eat?, Cursor.eat?, if_pos next, if_pos ((peek?_eq_some_iff aligned inLine).mpr next)]
    exact .some (advance aligned next inLine)
  · have other : c'.peek? ≠ some ch := fun next' =>
      next ((peek?_eq_some_iff aligned inLine).mp next')
    rw [Cursor.eat?, Cursor.eat?, if_neg next, if_neg other]
    exact .none

theorem eatText? {text : String} (aligned : r.Aligned c c') (inLine : InLine text.toList) :
    Option.Rel r.Aligned (c.eatText? text) (c'.eatText? text) := by
  rw [Cursor.eatText?, Cursor.eatText?, startsWith_eq aligned inLine]
  split
  · rename_i starts
    exact .some (advanceBy_length aligned (List.isPrefixOf_iff_prefix.mp starts) inLine)
  · exact .none

end Rendering

/-! ## Line feeds with carriage returns -/

/-- How many of the characters that end in the first `n` bytes of a text are line feeds. -/
def lineFeedsBefore : List Char → Nat → Nat
  | [], _ => 0
  | ch :: cs, n =>
      if n < ch.utf8Size then 0
      else (if ch = '\n' then 1 else 0) + lineFeedsBefore cs (n - ch.utf8Size)

/-- Where an offset in a text is when every line feed has a carriage return in front. -/
def pairedOffset (cs : List Char) (n : Nat) : Nat :=
  n + lineFeedsBefore cs n

/-- Where a position in a text is when every line feed has a carriage return in front. -/
def pairedPosition (cs : List Char) (p : Position) : Position :=
  { p with offset := pairedOffset cs p.offset }

/-- Where a span in a text is when every line feed has a carriage return in front. -/
def pairedSpan (cs : List Char) (span : Span) : Span :=
  { span with start := pairedOffset cs span.start, stop := pairedOffset cs span.stop }

section Paired

variable {cs front later : List Char} {ch : Char} {m n : Nat} {c c' : Cursor}

theorem lineFeedsBefore_zero : lineFeedsBefore cs 0 = 0 := by
  cases cs with
  | nil => rfl
  | cons ch cs => rw [lineFeedsBefore, if_pos ch.utf8Size_pos]

theorem lineFeedsBefore_mono (less : m ≤ n) : lineFeedsBefore cs m ≤ lineFeedsBefore cs n := by
  induction cs generalizing m n with
  | nil => exact Nat.le_refl 0
  | cons ch cs ih =>
      have behind := @ih (m - ch.utf8Size) (n - ch.utf8Size) (Nat.sub_le_sub_right less _)
      rw [lineFeedsBefore, lineFeedsBefore]
      by_cases inside : m < ch.utf8Size
      · rw [if_pos inside]
        exact Nat.zero_le _
      · rw [if_neg inside, if_neg (show ¬n < ch.utf8Size by omega)]
        exact Nat.add_le_add_left behind _

/-- Offsets keep their order. -/
theorem pairedOffset_lt_iff : pairedOffset cs m < pairedOffset cs n ↔ m < n := by
  constructor
  · intro less
    by_contra notLess
    have := @lineFeedsBefore_mono cs n m (Nat.le_of_not_lt notLess)
    simp only [pairedOffset] at less
    omega
  · intro less
    have := @lineFeedsBefore_mono cs m n (Nat.le_of_lt less)
    simp only [pairedOffset]
    omega

theorem utf8ByteSize_ofList_cons :
    (String.ofList (ch :: cs)).utf8ByteSize = ch.utf8Size + (String.ofList cs).utf8ByteSize := by
  rw [← List.singleton_append, String.ofList_append, String.utf8ByteSize_append,
    ← String.singleton_eq_ofList, String.utf8ByteSize_singleton]

theorem lineFeedsBefore_append :
    lineFeedsBefore (front ++ later) ((String.ofList front).utf8ByteSize + n) =
      front.count '\n' + lineFeedsBefore later n := by
  induction front with
  | nil => simp
  | cons ch front ih =>
      have behind : (String.ofList (ch :: front)).utf8ByteSize + n - ch.utf8Size =
          (String.ofList front).utf8ByteSize + n := by
        rw [utf8ByteSize_ofList_cons]
        omega
      rw [List.cons_append, lineFeedsBefore, if_neg (by rw [utf8ByteSize_ofList_cons]; omega),
        behind, ih, List.count_cons, ← Nat.add_assoc, Nat.add_comm (List.count _ _)]
      simp

/-- Behind some text there is one byte more for every line feed in it. -/
theorem pairedOffset_append :
    pairedOffset (front ++ later) (String.ofList front).utf8ByteSize =
      (String.ofList front).utf8ByteSize + front.count '\n' := by
  have counted := @lineFeedsBefore_append front later 0
  rw [Nat.add_zero, lineFeedsBefore_zero, Nat.add_zero] at counted
  rw [pairedOffset, counted]

/--
The second cursor is in a text with paired line ends where the first cursor is in the text: there is
one byte more in front of it for every line feed.
-/
structure PairedAt (text : List Char) (c c' : Cursor) : Prop where
  rest : c'.rest = LineEnds.paired.write c.rest
  front : ∃ front, text = front ++ c.rest ∧
    c.position.offset = (String.ofList front).utf8ByteSize ∧
    c'.position =
      ⟨c.position.offset + front.count '\n', c.position.line, c.position.column⟩

namespace PairedAt

variable {text : List Char}

theorem position (aligned : PairedAt text c c') :
    c'.position = pairedPosition text c.position := by
  obtain ⟨-, front, whole, offset, position'⟩ := aligned
  rw [position', pairedPosition, whole, offset, pairedOffset_append]

/-- Behind the same character the cursors are at the same place again.  A carriage return takes a
byte, but it leaves the line break to the line feed behind it. -/
theorem advance
    (aligned : PairedAt text c c')
    (plain : '\r' ∉ text)
    (ahead : c.rest = ch :: later) :
    PairedAt text c.advance (c'.advanceBy (LineEnds.paired.spell ch).length) := by
  obtain ⟨rest', front, whole, offset, position'⟩ := aligned
  have noReturn : ch ≠ '\r' := by
    rintro rfl
    exact plain (by simp [whole, ahead])
  have whole' : text = (front ++ [ch]) ++ c.advance.rest := by
    rw [whole, Cursor.rest_advance, ahead, List.append_assoc]
    rfl
  have bytes : (String.ofList (front ++ [ch])).utf8ByteSize = c.position.offset + ch.utf8Size := by
    rw [String.ofList_append, String.utf8ByteSize_append, offset, ← String.singleton_eq_ofList,
      String.utf8ByteSize_singleton]
  have behind := Cursor.position_advance ahead
  by_cases feed : ch = '\n'
  · subst feed
    have first : c'.rest = '\r' :: '\n' :: LineEnds.paired.write later := by
      rw [rest', ahead]
      rfl
    have second : c'.advance.rest = '\n' :: LineEnds.paired.write later := by
      rw [Cursor.rest_advance, first]
      rfl
    rw [Position.past, if_pos rfl] at behind
    refine ⟨?_, front ++ ['\n'], whole', by rw [bytes, behind], ?_⟩
    · rw [Cursor.rest_advanceBy, first, Cursor.rest_advance, ahead]
      rfl
    · change c'.advance.advance.position = _
      rw [Cursor.position_advance second, Cursor.position_advance first, position', behind]
      have sizes : '\r'.utf8Size = 1 ∧ '\n'.utf8Size = 1 := by decide
      simp [Position.past, sizes]
      omega
  · have first : c'.rest = ch :: LineEnds.paired.write later := by
      rw [rest', ahead, LineEnds.write_cons_of_ne feed]
    rw [Position.past, if_neg feed, if_neg noReturn] at behind
    rw [LineEnds.spell_of_ne feed]
    refine ⟨?_, front ++ [ch], whole', by rw [bytes, behind], ?_⟩
    · rw [Cursor.rest_advanceBy, first, Cursor.rest_advance, ahead]
      rfl
    · change c'.advance.position = _
      rw [Cursor.position_advance first, position', behind, Position.past, if_neg feed,
        if_neg noReturn]
      simp [feed]
      omega

theorem advanceBy (aligned : PairedAt text c c') (plain : '\r' ∉ text) (n : Nat) :
    PairedAt text (c.advanceBy n) (c'.advanceBy (LineEnds.paired.reach c.rest n)) := by
  induction n generalizing c c' with
  | zero => exact aligned
  | succ n ih =>
      cases ahead : c.rest with
      | nil =>
          have ended : c'.rest = [] := by
            rw [aligned.rest, ahead]
            rfl
          rw [Cursor.advanceBy_of_rest_eq_nil ahead, Cursor.advanceBy_of_rest_eq_nil ended]
          exact aligned
      | cons ch later =>
          have moved := ih (aligned.advance plain ahead)
          rw [Cursor.advanceBy_advanceBy, Cursor.rest_advance, ahead] at moved
          rw [Cursor.advanceBy, LineEnds.reach_cons_succ]
          exact moved

end PairedAt

/-- A text in which no line end is written as a pair, and the text in which all are. -/
def Rendering.paired (text : List Char) (plain : '\r' ∉ text) : Rendering where
  ends := .paired
  Aligned := PairedAt text
  place := pairedPosition text
  span := pairedSpan text
  rest_eq := PairedAt.rest
  position_eq := PairedAt.position
  aligned_advanceBy := fun aligned n => aligned.advanceBy plain n
  between_place := by
    intro first last
    simp only [Span.between, pairedPosition, pairedSpan, pairedOffset_lt_iff]
  position_span := fun _ => rfl

/-- The two texts are read from their starts. -/
theorem pairedAt_ofText (text : String) :
    PairedAt text.toList (.ofText text)
      (.ofText (String.ofList (LineEnds.paired.write text.toList))) where
  rest := String.toList_ofList
  front := ⟨[], rfl, rfl, rfl⟩

end Paired

end EmbeddedMarkup
