import EmbeddedMarkup.Text.Cursor
import Mathlib.Order.Defs.PartialOrder

/-!
# Moving cursors over known text

What a cursor does is determined by the characters ahead.  Here its moves are described where
these characters are known to start with some text.
-/

namespace EmbeddedMarkup

theorem Position.offset_lt_past (p : Position) (ch : Char) (following : Option Char) :
    p.offset < (p.past ch following).offset := by
  have positive := ch.utf8Size_pos
  unfold past
  split
  · simp only
    omega
  · split
    · split <;> simp only <;> omega
    · simp only
      omega

namespace Cursor

variable {start c d : Cursor} {ch : Char} {text rest : List Char} {p : Char → Bool}

@[simp] theorem advanceBy_zero (c : Cursor) : c.advanceBy 0 = c := rfl

theorem advance_eq_advanceBy (c : Cursor) : c.advance = c.advanceBy 1 := rfl

/-- Moving over a text that is ahead leaves what follows it. -/
theorem rest_advanceBy_length (ahead : c.rest = text ++ rest) :
    (c.advanceBy text.length).rest = rest := by
  rw [rest_advanceBy, ahead, List.drop_left]

theorem peek?_eq_some_iff : c.peek? = some ch ↔ ∃ more, c.rest = ch :: more := by
  unfold peek?
  cases c.rest <;> simp

theorem eat?_eq_some_iff : c.eat? ch = some d ↔ c.peek? = some ch ∧ d = c.advance := by
  unfold eat?
  split
  · rename_i next
    simp only [Option.some.injEq, next, true_and]
    exact eq_comm
  · rename_i other
    simp [other]

theorem eat?_eq_none_iff : c.eat? ch = none ↔ c.peek? ≠ some ch := by
  simp [eat?]

theorem eatText?_eq_some_iff {expected : String} :
    c.eatText? expected = some d ↔
      expected.toList <+: c.rest ∧ d = c.advanceBy expected.toList.length := by
  unfold eatText? startsWith
  rw [← List.isPrefixOf_iff_prefix]
  split
  · rename_i next
    simp only [Option.some.injEq, next, true_and]
    exact eq_comm
  · rename_i other
    simp [other]

/-- At the end there is nothing to move over. -/
theorem advanceBy_of_rest_eq_nil (ended : c.rest = []) (n : Nat) : c.advanceBy n = c := by
  induction n with
  | zero => rfl
  | succ n ih =>
      have still : c.advance = c := by
        rw [advance, ended]
      rw [advanceBy, still, ih]

/-- Moving over more characters than there are is moving over all of them. -/
theorem advanceBy_eq_of_length_le {n : Nat} (beyond : c.rest.length ≤ n) :
    c.advanceBy n = c.advanceBy c.rest.length := by
  have ended : (c.advanceBy c.rest.length).rest = [] := by
    rw [rest_advanceBy, List.drop_length]
  rw [← Nat.add_sub_cancel' beyond, ← advanceBy_advanceBy, advanceBy_of_rest_eq_nil ended]

/-- A cursor was moved over some characters if no move leads back from where it is. -/
theorem lt_iff_le_not_ge : c < d ↔ c ≤ d ∧ ¬ d ≤ c := by
  constructor
  · intro passed
    exact ⟨Cursor.le_of_lt passed, fun back =>
      absurd (size_lt_of_lt passed) (Nat.not_lt.2 (size_le_of_le back))⟩
  · rintro ⟨⟨n, rfl⟩, forth⟩
    have moves : 0 < n := by
      refine Nat.pos_of_ne_zero ?_
      rintro rfl
      exact forth (Cursor.le_refl c)
    refine lt_advanceBy moves fun ended => forth ?_
    rw [advanceBy_of_rest_eq_nil ended]
    exact Cursor.le_refl c

instance : Preorder Cursor where
  le_refl := Cursor.le_refl
  le_trans _ _ _ := Cursor.le_trans
  lt_iff_le_not_ge _ _ := lt_iff_le_not_ge

/-- Skipping drops the characters that pass the test. -/
@[simp] theorem rest_skipWhile (c : Cursor) (p : Char → Bool) :
    (c.skipWhile p).rest = c.rest.dropWhile p := by
  rw [skipWhile, rest_advanceBy, textWhile]
  induction c.rest with
  | nil => rfl
  | cons first more dropped =>
      cases passes : p first <;> simp [passes, dropped]

@[simp] theorem rest_skipBlanks (c : Cursor) : c.skipBlanks.rest = c.rest.dropWhile isBlank :=
  rest_skipWhile c isBlank

/-- What is skipped ends in front of a character that fails the test. -/
theorem fails_of_peek?_skipWhile (ahead : (c.skipWhile p).peek? = some ch) : p ch = false := by
  have stops := List.head?_dropWhile_not p c.rest
  rw [← rest_skipWhile, ← peek?, ahead] at stops
  simpa using stops

/-- A cursor in front of a character that fails the test skips nothing. -/
theorem skipWhile_eq_self (ahead : ∀ next, c.peek? = some next → p next = false) :
    c.skipWhile p = c := by
  have nothing : c.textWhile p = [] := by
    unfold textWhile
    unfold peek? at ahead
    cases rest : c.rest with
    | nil => rfl
    | cons next more =>
        have fails := ahead next (by rw [rest]; rfl)
        simp [fails]
  rw [skipWhile, nothing, List.length_nil, advanceBy_zero]

/-- A cursor in front of a character that is not blank skips nothing. -/
theorem skipBlanks_eq_self (ahead : ∀ next, c.peek? = some next → isBlank next = false) :
    c.skipBlanks = c :=
  skipWhile_eq_self ahead

/-- Where a visible character is ahead, no blank space is. -/
theorem skipBlanks_of_peek?
    (ahead : c.peek? = some ch)
    (visible : isBlank ch = false) :
    c.skipBlanks = c := by
  apply skipBlanks_eq_self
  intro next ahead'
  rw [ahead] at ahead'
  cases ahead'
  exact visible

/-- Behind blank space there is none to skip. -/
@[simp] theorem skipBlanks_skipBlanks (c : Cursor) : c.skipBlanks.skipBlanks = c.skipBlanks := by
  apply skipBlanks_eq_self
  intro next ahead
  have visible := List.head?_dropWhile_not isBlank c.rest
  unfold peek? at ahead
  rw [rest_skipBlanks] at ahead
  simpa [ahead] using visible

/-- The characters between two cursors. -/
def textTo (start stop : Cursor) : List Char :=
  start.rest.take (start.size - stop.size)

/-- Behind the characters up to a cursor lies what is ahead of it. -/
theorem textTo_append_rest (reached : c ≤ d) : c.textTo d ++ d.rest = c.rest := by
  obtain ⟨n, rfl⟩ := reached
  rw [textTo, size_advanceBy, rest_advanceBy]
  by_cases inside : n ≤ c.size
  · rw [Nat.sub_sub_self inside, List.take_append_drop]
  · have beyond : c.size ≤ n := Nat.le_of_not_le inside
    rw [Nat.sub_eq_zero_of_le beyond, Nat.sub_zero, size, List.take_length,
      List.drop_of_length_le beyond, List.append_nil]

/-- The characters between two cursors are known by what follows them. -/
theorem textTo_eq_of_rest (ahead : c.rest = text ++ d.rest) : c.textTo d = text := by
  have length : c.size - d.size = text.length := by
    rw [size, size, ahead, List.length_append, Nat.add_sub_cancel]
  rw [textTo, length, ahead, List.take_left]

@[simp] theorem textTo_self (c : Cursor) : c.textTo c = [] := by
  simp [textTo]

theorem textTo_advanceBy (c : Cursor) (n : Nat) : c.textTo (c.advanceBy n) = c.rest.take n := by
  apply textTo_eq_of_rest
  rw [rest_advanceBy, List.take_append_drop]

/-- The characters that a cursor skips pass the test. -/
theorem textTo_skipWhile (c : Cursor) (p : Char → Bool) :
    c.textTo (c.skipWhile p) = c.textWhile p := by
  apply textTo_eq_of_rest
  rw [rest_skipWhile, textWhile, List.takeWhile_append_dropWhile]

theorem isBlank_of_mem_textTo_skipBlanks
    (member : ch ∈ c.textTo c.skipBlanks) :
    isBlank ch = true := by
  rw [skipBlanks, textTo_skipWhile, textWhile] at member
  exact List.all_eq_true.mp List.all_takeWhile ch member

/-- Moving on leads to the cursor with as many characters ahead. -/
theorem eq_advanceBy_of_rest (reached : c ≤ d) (ahead : c.rest = text ++ d.rest) :
    d = c.advanceBy text.length := by
  obtain ⟨n, rfl⟩ := reached
  have left : (c.rest.drop n).length + text.length = c.rest.length := by
    rw [rest_advanceBy] at ahead
    rw [Nat.add_comm, ← List.length_append, ← ahead]
  rw [List.length_drop] at left
  by_cases inside : n ≤ c.rest.length
  · rw [show text.length = n by omega]
  · rw [show text.length = c.rest.length by omega]
    exact advanceBy_eq_of_length_le (by omega)

/-- The text is what a cursor moves over to another one. -/
def Passes (start : Cursor) (text : List Char) (stop : Cursor) : Prop :=
  start.rest = text ++ stop.rest ∧ stop = start.advanceBy text.length

theorem passes_advanceBy (ahead : c.rest = text ++ rest) :
    c.Passes text (c.advanceBy text.length) :=
  ⟨by rw [rest_advanceBy_length ahead, ahead], rfl⟩

theorem passes_take (c : Cursor) {n : Nat} (fits : n ≤ c.size) :
    c.Passes (c.rest.take n) (c.advanceBy n) := by
  refine ⟨?_, by rw [List.length_take_of_le fits]⟩
  rw [rest_advanceBy, List.take_append_drop]

@[simp] theorem passes_nil : c.Passes [] d ↔ d = c := by
  constructor
  · rintro ⟨-, same⟩
    exact same
  · rintro rfl
    exact ⟨rfl, rfl⟩

/-- A text in two parts is passed part by part. -/
theorem passes_append {more : List Char} :
    c.Passes (text ++ more) d ↔ ∃ middle, c.Passes text middle ∧ middle.Passes more d := by
  constructor
  · rintro ⟨ahead, reached⟩
    rw [List.append_assoc] at ahead
    refine ⟨c.advanceBy text.length, passes_advanceBy ahead, ?_, ?_⟩
    · rw [rest_advanceBy_length ahead]
    · rw [advanceBy_advanceBy, reached, List.length_append]
  · rintro ⟨middle, ⟨ahead, rfl⟩, ahead', reached⟩
    refine ⟨by rw [ahead, ahead', List.append_assoc], ?_⟩
    rw [reached, advanceBy_advanceBy, List.length_append]

theorem passes_cons :
    c.Passes (ch :: text) d ↔ c.peek? = some ch ∧ c.advance.Passes text d := by
  rw [← List.singleton_append, passes_append]
  constructor
  · rintro ⟨_, ⟨ahead, rfl⟩, behind⟩
    exact ⟨peek?_eq_some_iff.mpr ⟨_, ahead⟩, behind⟩
  · rintro ⟨next, behind⟩
    refine ⟨c.advance, ⟨?_, rfl⟩, behind⟩
    obtain ⟨more, ahead⟩ := peek?_eq_some_iff.mp next
    rw [rest_advance, ahead]
    rfl

theorem passes_singleton : c.Passes [ch] d ↔ c.peek? = some ch ∧ d = c.advance := by
  rw [passes_cons, passes_nil]

theorem Passes.le (passes : c.Passes text d) : c ≤ d :=
  ⟨_, passes.2⟩

theorem Passes.lt (passes : c.Passes text d) (nonempty : text ≠ []) : c < d := by
  refine ⟨passes.le, ?_⟩
  have moves := List.length_pos_iff.mpr nonempty
  rw [size, size, passes.1, List.length_append]
  omega

theorem Passes.eat? (passes : c.Passes [ch] d) : c.eat? ch = some d := by
  obtain ⟨next, behind⟩ := passes_cons.mp passes
  rw [passes_nil] at behind
  exact eat?_eq_some_iff.mpr ⟨next, behind⟩

theorem Passes.eatText? {expected : String} (passes : c.Passes expected.toList d) :
    c.eatText? expected = some d :=
  eatText?_eq_some_iff.mpr ⟨⟨d.rest, passes.1.symm⟩, passes.2⟩

/-- The text that passes a test throughout, up to where it ends, is the text that is skipped. -/
theorem Passes.textWhile
    (passes : c.Passes text d)
    (tested : ∀ ch ∈ text, p ch = true)
    (ends : ∀ ch, d.peek? = some ch → p ch = false) :
    c.textWhile p = text := by
  unfold peek? at ends
  rw [Cursor.textWhile, passes.1, List.takeWhile_append_of_pos tested]
  cases behind : d.rest with
  | nil => simp
  | cons ch rest => simp [ends ch (by rw [behind]; rfl)]

theorem Passes.skipWhile
    (passes : c.Passes text d)
    (tested : ∀ ch ∈ text, p ch = true)
    (ends : ∀ ch, d.peek? = some ch → p ch = false) :
    c.skipWhile p = d := by
  rw [Cursor.skipWhile, passes.textWhile tested ends, ← passes.2]

/-- Skipping goes on behind a text that passes the test throughout. -/
theorem Passes.skipWhile_eq
    (passes : c.Passes text d)
    (tested : ∀ ch ∈ text, p ch = true) :
    c.skipWhile p = d.skipWhile p := by
  have split : c.textWhile p = text ++ d.textWhile p := by
    rw [Cursor.textWhile, passes.1, List.takeWhile_append_of_pos tested, Cursor.textWhile]
  rw [Cursor.skipWhile, Cursor.skipWhile, split, List.length_append, ← advanceBy_advanceBy,
    ← passes.2]

/-- Skipping blank space goes on behind blank space. -/
theorem Passes.skipBlanks_eq
    (passes : c.Passes text d)
    (blank : ∀ ch ∈ text, isBlank ch = true) :
    c.skipBlanks = d.skipBlanks :=
  passes.skipWhile_eq blank

/-- Blank space is skipped up to a character that is not blank. -/
theorem Passes.skipBlanks
    {next : Char}
    (passes : c.Passes text d)
    (blank : ∀ ch ∈ text, isBlank ch = true)
    (ahead : d.peek? = some next)
    (visible : isBlank next = false) :
    c.skipBlanks = d := by
  rw [passes.skipBlanks_eq blank]
  apply skipBlanks_eq_self
  intro found next'
  rw [ahead] at next'
  cases next'
  exact visible

/-- Skipping moves over the characters that pass the test. -/
theorem passes_skipWhile (c : Cursor) (p : Char → Bool) :
    c.Passes (c.textWhile p) (c.skipWhile p) := by
  refine ⟨?_, rfl⟩
  rw [rest_skipWhile, Cursor.textWhile, List.takeWhile_append_dropWhile]

theorem offset_le_advance (c : Cursor) : c.position.offset ≤ c.advance.position.offset := by
  unfold advance
  split
  · exact Nat.le_refl _
  · exact Nat.le_of_lt (Position.offset_lt_past _ _ _)

/-- A cursor that was moved on has no smaller offset. -/
theorem offset_le_of_le (reached : c ≤ d) : c.position.offset ≤ d.position.offset := by
  obtain ⟨n, rfl⟩ := reached
  induction n generalizing c with
  | zero => exact Nat.le_refl _
  | succ n ih => exact Nat.le_trans c.offset_le_advance ih

/-- What lies behind a cursor lies as many characters behind as it has fewer ahead. -/
theorem eq_advanceBy_size (reached : c ≤ d) : d = c.advanceBy (c.size - d.size) := by
  have ahead := textTo_append_rest reached
  have length : (c.textTo d).length = c.size - d.size := by
    rw [size, size, ← ahead, List.length_append, Nat.add_sub_cancel]
  rw [← length]
  exact eq_advanceBy_of_rest reached ahead.symm

/-- Of two cursors behind a third one, that with fewer characters ahead lies behind the other. -/
theorem le_of_size_le (first : start ≤ c) (second : start ≤ d) (fewer : d.size ≤ c.size) :
    c ≤ d := by
  have fits := size_le_of_le first
  refine ⟨c.size - d.size, ?_⟩
  rw [eq_advanceBy_size first, advanceBy_advanceBy, size_advanceBy]
  rw [show start.size - c.size + (start.size - (start.size - c.size) - d.size) =
    start.size - d.size by omega]
  exact eq_advanceBy_size second

theorem size_pos_of_lt (ahead : c < d) : 0 < c.size :=
  Nat.zero_lt_of_lt (size_lt_of_lt ahead)

/-- A step that does not lead beyond a cursor that is ahead. -/
theorem advance_le (within : c < d) : c.advance ≤ d := by
  have fewer := size_lt_of_lt within
  refine le_of_size_le c.le_advance (Cursor.le_of_lt within) ?_
  rw [advance_eq_advanceBy, size_advanceBy]
  omega

theorem exists_cons_of_lt (ahead : c < d) : ∃ ch more, c.rest = ch :: more := by
  have some_left := size_pos_of_lt ahead
  rw [size] at some_left
  cases rest : c.rest with
  | nil => simp [rest] at some_left
  | cons ch more => exact ⟨ch, more, rfl⟩

theorem position_advance {more : List Char} (ahead : c.rest = ch :: more) :
    c.advance.position = c.position.past ch more.head? := by
  rw [Cursor.advance, ahead]

/-- A cursor that was moved over some characters has a greater offset. -/
theorem offset_lt_of_lt (ahead : c < d) : c.position.offset < d.position.offset := by
  obtain ⟨ch, more, rest⟩ := exists_cons_of_lt ahead
  refine Nat.lt_of_lt_of_le ?_ (offset_le_of_le (advance_le ahead))
  rw [position_advance rest]
  exact Position.offset_lt_past _ _ _

end Cursor
end EmbeddedMarkup
