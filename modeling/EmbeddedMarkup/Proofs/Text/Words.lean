import EmbeddedMarkup.Proofs.Text.Normalization

/-!
# Words of literal text

The words of a text are its longest runs of characters that are not blank.  The normal form of a
text is its words with one space between any two of them, and with one space at an end that has
blank space where ends are not trimmed.  A text without words has no normal form.

So the normal form says nothing about how much blank space stood where there was some, it has all
other characters as they were, and normalizing it again changes nothing.
-/

namespace EmbeddedMarkup

/-- The longest runs of characters that are not blank, in the order of the text. -/
def wordsOf (raw : List Char) : List (List Char) :=
  (raw.splitOnP isBlank).filter fun word => !word.isEmpty

/-- Blank space is at the start of the text. -/
def startsBlank (raw : List Char) : Bool :=
  raw.head?.any isBlank

/-- Blank space is at the end of the text. -/
def endsBlank (raw : List Char) : Bool :=
  raw.getLast?.any isBlank

/-- A space, if there is to be one. -/
def spaceIf (wanted : Bool) : List Char :=
  if wanted then [' '] else []

/-- The words of a text with a space between any two of them, and at the ends where it is kept. -/
def joinedWords (raw : List Char) (trimStart trimEnd : Bool) : List Char :=
  spaceIf (startsBlank raw && !trimStart) ++ [' '].intercalate (wordsOf raw) ++
    spaceIf (endsBlank raw && !trimEnd)

variable {raw blanks : List Char} {ch : Char} {trimStart trimEnd started pending : Bool}

/-! ## Words -/

@[simp] theorem wordsOf_nil : wordsOf [] = [] := rfl

@[simp] theorem startsBlank_cons : startsBlank (ch :: raw) = isBlank ch := rfl

/-- Blank space belongs to no word. -/
theorem wordsOf_cons_blank (blank : isBlank ch = true) : wordsOf (ch :: raw) = wordsOf raw := by
  rw [wordsOf, List.splitOnP_cons_eq_if_modifyHead, if_pos blank]
  rfl

theorem splitOnP_cons_visible (visible : isBlank ch = false) :
    (ch :: raw).splitOnP isBlank = (raw.splitOnP isBlank).modifyHead (ch :: ·) := by
  rw [List.splitOnP_cons_eq_if_modifyHead, if_neg (Bool.eq_false_iff.mp visible)]

/-- A character in front of blank space is the last one of its word. -/
theorem wordsOf_cons_visible_blank {next : Char}
    (visible : isBlank ch = false)
    (blank : isBlank next = true) :
    wordsOf (ch :: next :: raw) = [ch] :: wordsOf raw := by
  rw [wordsOf, splitOnP_cons_visible visible, List.splitOnP_cons_eq_if_modifyHead, if_pos blank]
  rfl

/-- A character in front of another one that is not blank belongs to the same word. -/
theorem exists_wordsOf_cons_visible {next : Char}
    (visible : isBlank ch = false)
    (visible' : isBlank next = false) :
    ∃ word words, wordsOf (next :: raw) = word :: words ∧
      wordsOf (ch :: next :: raw) = (ch :: word) :: words := by
  rw [wordsOf, wordsOf, splitOnP_cons_visible visible, splitOnP_cons_visible visible']
  cases split : raw.splitOnP isBlank with
  | nil => exact absurd split (List.splitOnP_ne_nil _ _)
  | cons word words => exact ⟨next :: word, words.filter fun word => !word.isEmpty, rfl, rfl⟩

/-- A character that no word follows is a word. -/
theorem wordsOf_cons_of_blank (visible : isBlank ch = false) (words : wordsOf raw = []) :
    wordsOf (ch :: raw) = [[ch]] := by
  cases raw with
  | nil =>
      rw [wordsOf, splitOnP_cons_visible visible]
      rfl
  | cons next raw =>
      cases blank : isBlank next with
      | true =>
          rw [wordsOf_cons_blank blank] at words
          rw [wordsOf_cons_visible_blank visible blank, words]
      | false =>
          obtain ⟨word, more, first, -⟩ := exists_wordsOf_cons_visible visible blank
          rw [first] at words
          cases words

/-- A character that is not blank belongs to a word. -/
theorem wordsOf_cons_visible_ne_nil (visible : isBlank ch = false) : wordsOf (ch :: raw) ≠ [] := by
  cases raw with
  | nil =>
      rw [wordsOf_cons_of_blank visible wordsOf_nil]
      exact List.cons_ne_nil _ _
  | cons next raw =>
      cases blank : isBlank next with
      | true =>
          rw [wordsOf_cons_visible_blank visible blank]
          exact List.cons_ne_nil _ _
      | false =>
          obtain ⟨word, more, -, first⟩ := exists_wordsOf_cons_visible visible blank
          rw [first]
          exact List.cons_ne_nil _ _

/-- A text has no words if it is blank throughout. -/
theorem wordsOf_eq_nil_iff : wordsOf raw = [] ↔ Blank raw := by
  induction raw with
  | nil => exact iff_of_true wordsOf_nil blank_nil
  | cons ch raw ih =>
      cases blank : isBlank ch with
      | true => rw [wordsOf_cons_blank blank, ih, blank_cons, and_iff_right blank]
      | false =>
          refine iff_of_false (wordsOf_cons_visible_ne_nil blank) fun whole => ?_
          rw [(blank_cons.mp whole).1] at blank
          cases blank

/-- In front of a text with words a character is followed by a space or by the first word. -/
theorem intercalate_wordsOf_cons (visible : isBlank ch = false) (words : ¬Blank raw) :
    [' '].intercalate (wordsOf (ch :: raw)) =
      ch :: (spaceIf (startsBlank raw) ++ [' '].intercalate (wordsOf raw)) := by
  cases raw with
  | nil => exact absurd blank_nil words
  | cons next raw =>
      rw [startsBlank_cons]
      cases blank : isBlank next with
      | true =>
          rw [wordsOf_cons_blank blank, wordsOf_cons_visible_blank visible blank,
            List.intercalate_cons_of_ne_nil]
          · rfl
          · rw [ne_eq, wordsOf_eq_nil_iff]
            exact fun behind => words (blank_cons.mpr ⟨blank, behind⟩)
      | false =>
          obtain ⟨word, more, split, split'⟩ := exists_wordsOf_cons_visible visible blank
          rw [split, split']
          cases more with
          | nil => simp [spaceIf]
          | cons second more => simp [spaceIf, List.intercalate_cons_cons]

theorem endsBlank_cons (nonempty : raw ≠ []) : endsBlank (ch :: raw) = endsBlank raw := by
  rw [endsBlank, List.getLast?_cons_of_ne_nil nonempty, endsBlank]

theorem endsBlank_of_blank (blank : Blank raw) : endsBlank raw = !raw.isEmpty := by
  cases last : raw.getLast? with
  | none =>
      rw [List.getLast?_eq_none_iff.mp last]
      rfl
  | some ch =>
      have member := List.mem_of_getLast? last
      have nonempty : raw.isEmpty = false := by
        cases raw with
        | nil => cases member
        | cons _ _ => rfl
      rw [endsBlank, last, Option.any_some, blank ch member, nonempty]
      rfl

/-! ## Collapsing -/

/-- Blank space alone is collapsed to a space, unless it is trimmed. -/
theorem collapseBlanks_of_blank (blank : Blank raw) :
    collapseBlanks trimStart trimEnd started pending raw =
      spaceIf ((pending || !raw.isEmpty) && !trimEnd) := by
  cases raw with
  | nil => simp [collapseBlanks, spaceIf]
  | cons ch raw =>
      have whole := @collapseBlanks_blank_append [] (ch :: raw) trimStart trimEnd started pending
        blank (List.cons_ne_nil _ _)
      rw [List.append_nil] at whole
      rw [whole]
      simp [collapseBlanks, spaceIf]

/-- What is collapsed is the words behind what was read before. -/
theorem collapseBlanks_eq (words : ¬Blank raw) :
    collapseBlanks trimStart trimEnd started pending raw =
      spaceIf ((pending || startsBlank raw) && (started || !trimStart)) ++
        [' '].intercalate (wordsOf raw) ++ spaceIf (endsBlank raw && !trimEnd) := by
  induction raw generalizing started pending with
  | nil => exact absurd blank_nil words
  | cons ch raw ih =>
      cases blank : isBlank ch with
      | true =>
          have more : ¬Blank raw := fun behind => words (blank_cons.mpr ⟨blank, behind⟩)
          have nonempty : raw ≠ [] := fun none => more (none ▸ blank_nil)
          rw [collapseBlanks, if_pos blank, ih more, wordsOf_cons_blank blank, startsBlank_cons,
            blank, endsBlank_cons nonempty, Bool.or_true, Bool.true_or]
      | false =>
          rw [collapseBlanks_visible_cons blank, startsBlank_cons, blank, Bool.or_false]
          by_cases last : Blank raw
          · have ended : endsBlank (ch :: raw) = !raw.isEmpty := by
              cases raw with
              | nil => exact blank
              | cons next raw =>
                  rw [endsBlank_cons (List.cons_ne_nil _ _), endsBlank_of_blank last]
            rw [collapseBlanks_of_blank last,
              wordsOf_cons_of_blank blank (wordsOf_eq_nil_iff.mpr last), ended]
            simp [spaceIf]
          · have nonempty : raw ≠ [] := fun none => last (none ▸ blank_nil)
            rw [ih last, intercalate_wordsOf_cons blank last, endsBlank_cons nonempty]
            simp [spaceIf]

/-- Other blank space in the place of blank space makes no difference. -/
theorem collapseBlanks_exchange {front behind other : List Char}
    (blank : Blank blanks) (nonempty : blanks ≠ [])
    (blank' : Blank other) (nonempty' : other ≠ []) :
    collapseBlanks trimStart trimEnd started pending (front ++ other ++ behind) =
      collapseBlanks trimStart trimEnd started pending (front ++ blanks ++ behind) := by
  induction front generalizing started pending with
  | nil =>
      rw [List.nil_append, List.nil_append, collapseBlanks_blank_append blank nonempty,
        collapseBlanks_blank_append blank' nonempty']
  | cons ch front ih =>
      simp only [List.cons_append, collapseBlanks, ih]

/-- All characters that are not blank are kept. -/
theorem filter_collapseBlanks :
    (collapseBlanks trimStart trimEnd started pending raw).filter (!isBlank ·) =
      raw.filter (!isBlank ·) := by
  have space : isBlank ' ' = true := rfl
  fun_induction collapseBlanks trimStart trimEnd started pending raw with
  | case1 => simp [space]
  | case2 => rfl
  | case3 started pending ch raw blank ih => rw [ih, List.filter_cons_of_neg (by simp [blank])]
  | case4 started pending ch raw visible ih =>
      rw [List.filter_append, List.filter_cons_of_pos (by simp [visible]),
        List.filter_cons_of_pos (by simp [visible]), ih]
      split <;> simp [space]

/-! ## Normal forms -/

/-- The normal form of a text that is not blank throughout is its words, joined. -/
theorem normalizeText_of_words (words : ¬Blank raw) :
    normalizeText raw trimStart trimEnd =
      some (String.ofList (joinedWords raw trimStart trimEnd)) := by
  have some_word : raw.all isBlank ≠ true := fun all => words (List.all_eq_true.mp all)
  rw [normalizeText, if_neg some_word, collapseBlanks_eq words, joinedWords, Bool.false_or,
    Bool.false_or]

/-- A normal form is its own normal form. -/
theorem normalizeText_toList_of_normalizeText {value : String}
    (normalized : normalizeText raw trimStart trimEnd = some value) :
    normalizeText value.toList trimStart trimEnd = some value := by
  have boundary (trim : Bool) : ∃ side : Boundary, (side == .tag) = trim := by
    cases trim with
    | false => exact ⟨.hole, rfl⟩
    | true => exact ⟨.tag, rfl⟩
  obtain ⟨left, rfl⟩ := boundary trimStart
  obtain ⟨right, rfl⟩ := boundary trimEnd
  rw [normalizeText_of_isNormal (isNormal_of_normalizeText normalized), String.ofList_toList]

theorem all_isBlank_exchange {front behind other : List Char}
    (blank : Blank blanks) (blank' : Blank other) :
    (front ++ other ++ behind).all isBlank = (front ++ blanks ++ behind).all isBlank := by
  rw [List.all_append, List.all_append, List.all_append, List.all_append,
    List.all_eq_true.mpr blank, List.all_eq_true.mpr blank']

/-- Other blank space in the place of blank space leaves the normal form as it is. -/
theorem normalizeText_exchange {front behind other : List Char}
    (blank : Blank blanks) (nonempty : blanks ≠ [])
    (blank' : Blank other) (nonempty' : other ≠ []) :
    normalizeText (front ++ other ++ behind) trimStart trimEnd =
      normalizeText (front ++ blanks ++ behind) trimStart trimEnd := by
  rw [normalizeText, normalizeText, all_isBlank_exchange blank blank',
    collapseBlanks_exchange blank nonempty blank' nonempty']

/-- The normal form has the characters of the text that are not blank. -/
theorem filter_toList_of_normalizeText {value : String}
    (normalized : normalizeText raw trimStart trimEnd = some value) :
    value.toList.filter (!isBlank ·) = raw.filter (!isBlank ·) := by
  unfold normalizeText at normalized
  split at normalized
  · cases normalized
  · cases normalized
    rw [String.toList_ofList, filter_collapseBlanks]

/--
A text has no normal form if it is blank throughout, and else its normal form is its words, joined.
That is normal already, has all characters of the text that are not blank, and stays the same when
blank space of the text is exchanged for other blank space.
-/
theorem normalizeText_eq_joinedWords (raw : List Char) (trimStart trimEnd : Bool) :
    (normalizeText raw trimStart trimEnd = none ↔ Blank raw) ∧
      (¬Blank raw → normalizeText raw trimStart trimEnd =
        some (String.ofList (joinedWords raw trimStart trimEnd))) ∧
      (∀ value, normalizeText raw trimStart trimEnd = some value →
        normalizeText value.toList trimStart trimEnd = some value ∧
          value.toList.filter (!isBlank ·) = raw.filter (!isBlank ·)) ∧
      ∀ front blanks behind other, raw = front ++ blanks ++ behind →
        Blank blanks → blanks ≠ [] → Blank other → other ≠ [] →
        normalizeText (front ++ other ++ behind) trimStart trimEnd =
          normalizeText raw trimStart trimEnd := by
  refine ⟨?_, normalizeText_of_words, ?_, ?_⟩
  · rw [normalizeText_eq_none_iff, List.all_eq_true, Blank]
  · intro value normalized
    exact ⟨normalizeText_toList_of_normalizeText normalized,
      filter_toList_of_normalizeText normalized⟩
  · rintro front blanks behind other rfl blank nonempty blank' nonempty'
    exact normalizeText_exchange blank nonempty blank' nonempty'

/-- Two words on two lines, with a line feed and a tab exchanged for a space. -/
theorem normalizeText_eq_joinedWords_lines :
    normalizeText " a\n\tb ".toList true false = some "a b " ∧
      normalizeText " a b ".toList true false = normalizeText " a\n\tb ".toList true false := by
  obtain ⟨-, joined, -, exchanged⟩ := normalizeText_eq_joinedWords " a\n\tb ".toList true false
  have words : ¬Blank " a\n\tb ".toList := fun blank => absurd (blank 'a' (by decide)) (by decide)
  exact ⟨(joined words).trans (by decide),
    exchanged [' ', 'a'] ['\n', '\t'] ['b', ' '] [' '] rfl (by unfold Blank; decide) (by decide)
      blank_space (by decide)⟩

end EmbeddedMarkup
