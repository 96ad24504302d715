import EmbeddedMarkup.Markup.TagName
import EmbeddedMarkup.Proofs.Text.Cursor
import EmbeddedMarkup.Proofs.Text.Normalization

/-!
# The text of tags

A tag name is read off the characters ahead, so the name is the text between two cursors.  A
closing tag is `</`, the name with blank space around it, and `>`.
-/

namespace EmbeddedMarkup

variable {c d : Cursor} {name : String}

theorem blank_textTo_skipBlanks (c : Cursor) : Blank (c.textTo c.skipBlanks) :=
  fun _ member => Cursor.isBlank_of_mem_textTo_skipBlanks member

/-- The tail of a tag name is a prefix of the characters ahead. -/
theorem TagNameTail.prefix_text_read (cs : List Char) : (TagNameTail.read cs).text <+: cs := by
  fun_induction TagNameTail.read cs with
  | case1 => exact List.nil_prefix
  | case2 => exact List.nil_prefix
  | case3 c rest _ ih => exact List.prefix_append_right_inj ['.', c] |>.mpr ih
  | case4 => exact List.nil_prefix
  | case5 c rest _ _ _ ih => exact List.prefix_append_right_inj [c] |>.mpr ih
  | case6 => exact List.nil_prefix

/-- A dotted name is the text that was read. -/
theorem rest_of_readDottedName
    {reached : c ≤ d}
    (read : readDottedName c = .ok ⟨name, d, reached⟩) :
    c.rest = name.toList ++ d.rest := by
  unfold readDottedName at read
  dsimp only at read
  split at read
  · cases read
    obtain ⟨behind, whole⟩ := TagNameTail.prefix_text_read c.rest
    rw [Cursor.rest_advanceBy_length whole.symm, String.toList_ofList, whole]
  · cases read

theorem rest_of_readTagName
    {reached : c ≤ d}
    (read : readTagName c = .ok ⟨name, d, reached⟩) :
    c.rest = name.toList ++ d.rest := by
  unfold readTagName at read
  split at read
  · exact rest_of_readDottedName read
  · cases read

theorem rest_of_readClosingName
    {reached : c ≤ d}
    (read : readClosingName c = .ok ⟨name, d, reached⟩) :
    c.rest = name.toList ++ d.rest := by
  unfold readClosingName at read
  split at read
  · exact rest_of_readDottedName read
  · cases read
    rfl

/-- The text from one cursor to the other is a closing tag of this name. -/
def ClosesTag (start : Cursor) (name : String) (stop : Cursor) : Prop :=
  start ≤ stop ∧ ∃ before behind, Blank before ∧ Blank behind ∧
    start.textTo stop = '<' :: '/' :: (before ++ name.toList ++ behind ++ ['>'])

/-- A closing tag is a name that is the one of the opening tag, and a bracket behind it. -/
theorem of_readClosingTag
    {opening : String}
    {reached : c < d}
    (read : readClosingTag c opening = .ok ⟨name, d, reached⟩) :
    name = opening ∧ ∃ named passed,
      readClosingName (c.advanceBy 2).skipBlanks = .ok ⟨name, named, passed⟩ ∧
        named.skipBlanks.eat? '>' = some d := by
  unfold readClosingTag at read
  dsimp only at read
  split at read
  · cases read
  · rename_i closing named passed found
    split at read
    · cases read
    · rename_i same
      split at read
      · rename_i stop ended
        cases read
        exact ⟨Decidable.not_not.mp same, named, passed, found, ended⟩
      · split at read <;> cases read

/-- What is read as a closing tag is one. -/
theorem closesTag_of_readClosingTag
    {opening : String}
    {more : List Char}
    {reached : c < d}
    (ahead : c.rest = '<' :: '/' :: more)
    (read : readClosingTag c opening = .ok ⟨name, d, reached⟩) :
    ClosesTag c name d := by
  obtain ⟨-, named, passed, found, ended⟩ := of_readClosingTag read
  have inside : (c.advanceBy 2).rest = more := by
    rw [Cursor.rest_advanceBy, ahead]
    rfl
  have before := Cursor.textTo_append_rest (c.advanceBy 2).le_skipBlanks
  have behind := Cursor.textTo_append_rest named.le_skipBlanks
  obtain ⟨next, rfl⟩ := Cursor.eat?_eq_some_iff.mp ended
  obtain ⟨tail, bracket⟩ := Cursor.peek?_eq_some_iff.mp next
  refine ⟨Cursor.le_of_lt reached, (c.advanceBy 2).textTo (c.advanceBy 2).skipBlanks,
    named.textTo named.skipBlanks, blank_textTo_skipBlanks _, blank_textTo_skipBlanks _, ?_⟩
  apply Cursor.textTo_eq_of_rest
  rw [Cursor.rest_advance, bracket, ahead, ← inside, ← before, rest_of_readClosingName found,
    ← behind, bracket]
  simp

/-! ## Writing tags -/

/-- Characters that continue a tag name: points stand in front of what starts an identifier. -/
inductive ContinuesTagName : List Char → Prop
  | nil : ContinuesTagName []
  | char {ch : Char} {text : List Char} :
      isMarkupNameChar ch = true →
      ContinuesTagName text →
      ContinuesTagName (ch :: text)
  | point {ch : Char} {text : List Char} :
      isIdentifierStart ch = true →
      ContinuesTagName text →
      ContinuesTagName ('.' :: ch :: text)

/-- A tag name that is not empty. -/
structure IsTagName (name : List Char) : Prop where
  start : startsIdentifier name = true
  continues : ContinuesTagName name

theorem IsTagName.exists_cons {name : List Char} (isName : IsTagName name) :
    ∃ first more, name = first :: more ∧ isIdentifierStart first = true := by
  have start := isName.start
  cases name with
  | nil => cases start
  | cons first more => exact ⟨first, more, rfl, start⟩

/-- What is ahead does not continue a tag name. -/
def EndsTagName (rest : List Char) : Prop :=
  ∀ ch, rest.head? = some ch → isMarkupNameChar ch = false ∧ ch ≠ '.'

variable {text rest tagName before behind : List Char} {ch : Char}

theorem endsTagName_cons : EndsTagName (ch :: rest) ↔ isMarkupNameChar ch = false ∧ ch ≠ '.' := by
  simp [EndsTagName]

theorem endsTagName_of_peek?
    {c : Cursor}
    (ahead : c.peek? = some ch)
    (ends : isMarkupNameChar ch = false ∧ ch ≠ '.') :
    EndsTagName c.rest := by
  obtain ⟨more, rest⟩ := Cursor.peek?_eq_some_iff.mp ahead
  rw [rest]
  exact endsTagName_cons.mpr ends

theorem TagNameTail.read_cons (other : ch ≠ '.') :
    TagNameTail.read (ch :: rest) =
      if isMarkupNameChar ch then (TagNameTail.read rest).prepend [ch] else ⟨[], true⟩ := by
  rw [TagNameTail.read]
  · intro same
    exact absurd same other
  · intro next more same
    exact absurd same other

/-- A written tag name is read as it is. -/
theorem TagNameTail.read_append (continues : ContinuesTagName text) (ends : EndsTagName rest) :
    TagNameTail.read (text ++ rest) = ⟨text, true⟩ := by
  induction continues with
  | nil =>
      cases rest with
      | nil => rfl
      | cons ch rest =>
          obtain ⟨stops, other⟩ := endsTagName_cons.mp ends
          rw [List.nil_append, read_cons other, if_neg (by simp [stops])]
  | @char ch text isChar _ ih =>
      have other : ch ≠ '.' := by
        rintro rfl
        cases isChar
      rw [List.cons_append, read_cons other, if_pos isChar, ih]
      rfl
  | point start _ ih =>
      rw [List.cons_append, List.cons_append, TagNameTail.read, if_pos start, ih]
      rfl

/-- What is read as the tail of a tag name continues one. -/
theorem TagNameTail.continuesTagName_text (cs : List Char) :
    ContinuesTagName (TagNameTail.read cs).text := by
  fun_induction TagNameTail.read cs with
  | case1 => exact .nil
  | case2 => exact .nil
  | case3 c rest start ih => exact .point start ih
  | case4 => exact .nil
  | case5 c rest _ _ isChar ih => exact .char isChar ih
  | case6 => exact .nil

/-- A tail that is complete is followed by something else. -/
theorem TagNameTail.endsTagName_of_complete
    {cs : List Char}
    (complete : (TagNameTail.read cs).complete = true) :
    EndsTagName (cs.drop (TagNameTail.read cs).text.length) := by
  fun_induction TagNameTail.read cs with
  | case1 => exact fun _ none => nomatch none
  | case2 => cases complete
  | case3 c rest start ih => exact ih complete
  | case4 => cases complete
  | case5 c rest _ _ _ ih => exact ih complete
  | case6 c rest alone other notChar =>
      refine endsTagName_cons.mpr ⟨by simpa using notChar, ?_⟩
      rintro rfl
      cases rest with
      | nil => exact alone rfl rfl
      | cons next rest => exact other next rest rfl rfl

/-- What follows a tag name does not continue it. -/
theorem endsTagName_of_readTagName
    {reached : c ≤ d}
    (read : readTagName c = .ok ⟨name, d, reached⟩) :
    EndsTagName d.rest := by
  unfold readTagName readDottedName at read
  split at read
  · dsimp only at read
    split at read
    · rename_i complete
      cases read
      rw [Cursor.rest_advanceBy]
      exact TagNameTail.endsTagName_of_complete complete
    · cases read
  · cases read

/-- What is read as a tag name is one. -/
theorem isTagName_of_readTagName
    {reached : c ≤ d}
    (read : readTagName c = .ok ⟨name, d, reached⟩) :
    IsTagName name.toList := by
  unfold readTagName at read
  split at read
  · rename_i starts
    unfold readDottedName at read
    dsimp only at read
    split at read
    · cases read
      rw [String.toList_ofList]
      refine ⟨?_, TagNameTail.continuesTagName_text _⟩
      cases ahead : c.rest with
      | nil =>
          rw [ahead] at starts
          cases starts
      | cons ch rest =>
          rw [ahead] at starts
          have start : isIdentifierStart ch = true := starts
          have isChar : isMarkupNameChar ch = true := by
            simp [isMarkupNameChar, isIdentifierChar_of_isIdentifierStart start]
          have other : ch ≠ '.' := by
            rintro rfl
            cases start
          rw [TagNameTail.read_cons other, if_pos isChar]
          exact start
    · cases read
  · cases read

theorem isTagName_of_readClosingTag
    {opening : String}
    {reached : c < d}
    (read : readClosingTag c opening = .ok ⟨name, d, reached⟩) :
    name.toList = [] ∨ IsTagName name.toList := by
  obtain ⟨-, named, passed, found, -⟩ := of_readClosingTag read
  unfold readClosingName at found
  split at found
  · rename_i starts
    refine .inr (@isTagName_of_readTagName _ _ _ passed ?_)
    rw [readTagName, if_pos starts]
    exact found
  · cases found
    exact .inl rfl

theorem readDottedName_eq_ok
    (isName : IsTagName tagName)
    (passes : c.Passes tagName d)
    (ends : EndsTagName d.rest) :
    ∃ reached, readDottedName c = .ok ⟨String.ofList tagName, d, reached⟩ := by
  have read := TagNameTail.read_append isName.continues ends
  rw [← passes.1] at read
  refine ⟨passes.le, ?_⟩
  simp only [readDottedName, read, if_true, ← passes.2]

theorem startsIdentifier_append (starts : startsIdentifier text = true) :
    startsIdentifier (text ++ rest) = true := by
  cases text with
  | nil => cases starts
  | cons ch text => exact starts

theorem readTagName_eq_ok
    (isName : IsTagName tagName)
    (passes : c.Passes tagName d)
    (ends : EndsTagName d.rest) :
    ∃ reached, readTagName c = .ok ⟨String.ofList tagName, d, reached⟩ := by
  rw [readTagName, passes.1, if_pos (startsIdentifier_append isName.start)]
  exact readDottedName_eq_ok isName passes ends

theorem endsTagName_of_blank
    (blank : Blank before)
    (ends : EndsTagName rest) :
    EndsTagName (before ++ rest) := by
  cases before with
  | nil => exact ends
  | cons ch before =>
      refine endsTagName_cons.mpr ?_
      have isBlank := (blank_cons.mp blank).1
      simp only [EmbeddedMarkup.isBlank, Bool.or_eq_true, beq_iff_eq] at isBlank
      rcases isBlank with (((rfl | rfl) | rfl) | rfl) | rfl <;> decide

theorem isBlank_eq_false_of_isIdentifierStart (start : isIdentifierStart ch = true) :
    isBlank ch = false := by
  cases blank : isBlank ch with
  | false => rfl
  | true =>
      simp only [isBlank, Bool.or_eq_true, beq_iff_eq] at blank
      rcases blank with (((rfl | rfl) | rfl) | rfl) | rfl <;> cases start

/-- The name of a closing tag, which may be empty, is read behind blank space. -/
theorem readClosingName_eq_ok
    {middle : Cursor}
    (isName : tagName = [] ∨ IsTagName tagName)
    (blank : Blank before)
    (blank' : Blank behind)
    (passes : c.Passes before middle)
    (passes' : middle.Passes (tagName ++ behind) d)
    (closes : d.peek? = some '>') :
    ∃ named reached, readClosingName c.skipBlanks = .ok ⟨String.ofList tagName, named, reached⟩ ∧
      named.skipBlanks = d := by
  obtain ⟨named, passesName, passesBehind⟩ := Cursor.passes_append.mp passes'
  have skipped := passesBehind.skipBlanks blank' closes rfl
  obtain ⟨more, ahead⟩ := Cursor.peek?_eq_some_iff.mp closes
  rcases isName with rfl | isName
  · rw [Cursor.passes_nil] at passesName
    subst passesName
    rw [passes.skipBlanks_eq blank, skipped]
    refine ⟨d, d.le_refl, ?_, ?_⟩
    · rw [readClosingName, ahead]
      rfl
    · rw [← skipped, Cursor.skipBlanks_skipBlanks]
  · obtain ⟨first, more, rfl, start⟩ := isName.exists_cons
    have visible := isBlank_eq_false_of_isIdentifierStart start
    have next := (Cursor.passes_cons.mp passesName).1
    have ends : EndsTagName named.rest := by
      rw [passesBehind.1, ahead]
      exact endsTagName_of_blank blank' (endsTagName_cons.mpr (by decide))
    obtain ⟨reached, read⟩ := readDottedName_eq_ok isName passesName ends
    rw [passes.skipBlanks blank next visible]
    refine ⟨named, reached, ?_, skipped⟩
    rw [readClosingName, passesName.1, if_pos (startsIdentifier_append isName.start)]
    exact read

/-- A closing tag with blank space around its name is read. -/
theorem readClosingTag_eq_ok
    (isName : tagName = [] ∨ IsTagName tagName)
    (blank : Blank before)
    (blank' : Blank behind)
    (passes : c.Passes (['<', '/'] ++ (before ++ (tagName ++ behind ++ ['>']))) d) :
    ∃ reached, readClosingTag c (String.ofList tagName) =
      .ok ⟨String.ofList tagName, d, reached⟩ := by
  have passed : c < d := passes.lt (List.cons_ne_nil _ _)
  obtain ⟨inside, opening, passes⟩ := Cursor.passes_append.mp passes
  obtain ⟨middle, passesBefore, passes⟩ := Cursor.passes_append.mp passes
  obtain ⟨closed, passesName, closing⟩ := Cursor.passes_append.mp passes
  have closes := (Cursor.passes_cons.mp closing).1
  obtain ⟨named, reached, read, skipped⟩ :=
    readClosingName_eq_ok isName blank blank' passesBefore passesName closes
  refine ⟨passed, ?_⟩
  have opened : inside = c.advanceBy 2 := opening.2
  subst opened
  have ended : named.skipBlanks.eat? '>' = some d := by
    rw [skipped]
    exact closing.eat?
  unfold readClosingTag
  simp only [read, ne_eq, not_true_eq_false, if_false]
  split
  · rename_i stop ended'
    rw [ended] at ended'
    cases ended'
    rfl
  · rename_i none
    rw [ended] at none
    cases none

end EmbeddedMarkup
