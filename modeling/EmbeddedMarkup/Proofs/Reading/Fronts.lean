import EmbeddedMarkup.Proofs.Reading.Ends
import EmbeddedMarkup.Proofs.Reading.Failure

/-!
# Markup that breaks off

The front of some markup may stand in another place too, with something else behind it.  Up to
there everything is read as it was: what lies in the front is read in the other place as well, and
only what lies at its end may depend on what follows.  So where something follows that fails, the
whole fails with it.
-/

namespace EmbeddedMarkup

open Cursor

/-- The text between two cursors is ahead of a third one too, and then `rest`. -/
structure SharesFront (start stop start' : Cursor) (rest : List Char) : Prop where
  le : start ≤ stop
  ahead : start'.rest = start.textTo stop ++ rest
  opens : ∃ ch, start.peek? = some ch ∧ isBlank ch = false
  column_pos : 0 < start.position.column
  column_pos' : 0 < start'.position.column

/-- A name at the end of the text is not prolonged by what follows. -/
def Unprolonged (text rest : List Char) : Prop :=
  ∀ ch, text.getLast? = some ch → isNameDelimiter ch = false →
    ∀ next, rest.head? = some next → isNameDelimiter next = true

/--
A text of a tag header is apart from what follows: a name at its end is neither prolonged nor given
a value.
-/
structure StandsApart (text rest : List Char) : Prop where
  unprolonged : Unprolonged text rest
  valueless : (rest.dropWhile isBlank).head? ≠ some '='

variable
  {level : Nat}
  {start stop start' c d here behind : Cursor}
  {rest text name : List Char}
  {fault : Fault}

/-! ## Names -/

/-- A tag name is made of the characters of its segments and of points. -/
theorem ContinuesTagName.chars (continues : ContinuesTagName text) :
    ∀ ch ∈ text, isMarkupNameChar ch = true ∨ ch = '.' := by
  induction continues with
  | nil => simp
  | char isChar _ ih => exact List.forall_mem_cons.mpr ⟨.inl isChar, ih⟩
  | point start _ ih =>
      have isChar := isIdentifierChar_of_isIdentifierStart start
      refine List.forall_mem_cons.mpr ⟨.inr rfl, List.forall_mem_cons.mpr ⟨.inl ?_, ih⟩⟩
      simp [isMarkupNameChar, isChar]

theorem ContinuesTagName.undelimited (continues : ContinuesTagName text) :
    ∀ ch ∈ text, isNameDelimiter ch = false := by
  intro ch member
  rcases continues.chars ch member with isChar | rfl
  · exact isNameDelimiter_eq_false isChar
  · rfl

theorem ContinuesTagName.bracket_not_mem (continues : ContinuesTagName text) : '<' ∉ text := by
  intro member
  rcases continues.chars '<' member with isChar | point
  · cases isChar
  · cases point

theorem endsTagName_of_delimiter {ch : Char} (delimiter : isNameDelimiter ch = true) :
    isMarkupNameChar ch = false ∧ ch ≠ '.' := by
  constructor
  · rw [Bool.eq_false_iff]
    intro isChar
    rw [isNameDelimiter_eq_false isChar] at delimiter
    cases delimiter
  · rintro rfl
    cases delimiter

/-! ## Copies of the front -/

namespace SharesFront

/-- A part of the front that ends visibly is copied. -/
theorem copied
    (shares : SharesFront start stop start' rest)
    (closes : start.StopsVisibly d)
    (within : d ≤ stop) :
    Copied start d start' where
  le := Cursor.le_of_lt closes.lt
  ahead := by
    rw [shares.ahead, ← textTo_append_textTo (Cursor.le_of_lt closes.lt) within, List.append_assoc]
    exact List.prefix_append _ _
  opens := shares.opens
  closes := closes
  column_pos := shares.column_pos
  column_pos' := shares.column_pos'

theorem rest_copy
    (shares : SharesFront start stop start' rest)
    (inside : start ≤ c)
    (within : c ≤ stop) :
    (start.copy start' c).rest = c.textTo stop ++ rest := by
  have length : start.size - c.size = (start.textTo c).length := by
    rw [size, ← textTo_append_rest inside, List.length_append]
    exact Nat.add_sub_cancel _ _
  rw [copy, length]
  apply rest_advanceBy_length
  rw [shares.ahead, ← textTo_append_textTo inside within, List.append_assoc]

theorem passes
    (shares : SharesFront start stop start' rest)
    (inside : start ≤ c)
    (passes : c.Passes text d)
    (within : d ≤ stop) :
    (start.copy start' c).Passes text (start.copy start' d) := by
  have order := passes.le
  constructor
  · rw [shares.rest_copy inside (Cursor.le_trans order within),
      shares.rest_copy (Cursor.le_trans inside order) within, ← List.append_assoc,
      ← textTo_append_textTo order within, textTo_eq_of_rest passes.1]
  · obtain ⟨ahead, rfl⟩ := passes
    refine copy_advanceBy inside ?_
    rw [size, ahead, List.length_append]
    exact Nat.le_add_right _ _

/-- What holds of the character behind a word in the front, be it the last one, holds in the other
place too. -/
theorem ends_copy
    {P : Char → Prop}
    (shares : SharesFront start stop start' rest)
    (apart : StandsApart (start.textTo stop) rest)
    (delimiters : ∀ ch, isNameDelimiter ch = true → P ch)
    (inside : start ≤ c)
    (passes : c.Passes name d)
    (nonempty : name ≠ [])
    (undelimited : ∀ ch ∈ name, isNameDelimiter ch = false)
    (within : d ≤ stop)
    (ends : ∀ ch, d.peek? = some ch → P ch) :
    ∀ ch, (start.copy start' d).peek? = some ch → P ch := by
  intro ch next
  have order := Cursor.le_trans inside passes.le
  have ahead := textTo_append_rest within
  rw [Cursor.peek?, shares.rest_copy order within] at next
  cases left : d.textTo stop with
  | cons first more =>
      rw [left] at ahead next
      cases next
      exact ends ch (peek?_eq_some_iff.mpr ⟨_, ahead.symm⟩)
  | nil =>
      rw [left] at next
      have whole : start.textTo stop = start.textTo c ++ name := by
        rw [← textTo_append_textTo order within, left, List.append_nil,
          ← textTo_append_textTo inside passes.le, textTo_eq_of_rest passes.1]
      have last := List.getLast?_eq_some_getLast nonempty
      have letter := undelimited _ (List.getLast_mem nonempty)
      refine delimiters ch (apart.unprolonged _ ?_ letter ch next)
      rw [whole, List.getLast?_append, last]
      rfl

/-- What is given no value in the front is given none in the other place. -/
theorem eat?_equals_copy
    (shares : SharesFront start stop start' rest)
    (apart : StandsApart (start.textTo stop) rest)
    (inside : start ≤ c)
    (within : c ≤ stop)
    (bare : c.skipBlanks.eat? '=' = none) :
    (start.copy start' c).skipBlanks.eat? '=' = none := by
  rw [eat?_eq_none_iff, Cursor.peek?, rest_skipBlanks] at bare ⊢
  rw [shares.rest_copy inside within, List.dropWhile_append]
  rw [← textTo_append_rest within, List.dropWhile_append] at bare
  split
  · exact apart.valueless
  · rename_i some_left
    rw [if_neg some_left] at bare
    cases visible : (c.textTo stop).dropWhile isBlank with
    | nil => simp [visible] at some_left
    | cons ch more =>
        rw [visible] at bare
        exact bare

/-- A tag name in the front is read in the other place too. -/
theorem readTagName_copy
    {name : String}
    {reached : c ≤ d}
    (shares : SharesFront start stop start' rest)
    (apart : StandsApart (start.textTo stop) rest)
    (inside : start ≤ c)
    (within : d ≤ stop)
    (read : readTagName c = .ok ⟨name, d, reached⟩) :
    ∃ reached', readTagName (start.copy start' c) = .ok ⟨name, start.copy start' d, reached'⟩ := by
  have isName := isTagName_of_readTagName read
  have spelled := rest_of_readTagName read
  have passes : c.Passes name.toList d := ⟨spelled, eq_advanceBy_of_rest reached spelled⟩
  have nonempty : name.toList ≠ [] := by
    intro empty
    have starts := isName.start
    rw [empty] at starts
    cases starts
  have ends := shares.ends_copy (P := fun ch => isMarkupNameChar ch = false ∧ ch ≠ '.') apart
    (fun ch => endsTagName_of_delimiter) inside passes nonempty isName.continues.undelimited within
    (endsTagName_of_readTagName read)
  obtain ⟨reached', read'⟩ := readTagName_eq_ok isName (shares.passes inside passes within) ends
  rw [String.ofList_toList] at read'
  exact ⟨reached', read'⟩

/-- An attribute in the front is read in the other place too. -/
theorem reads_attribute
    {item : Attribute Expression}
    (shares : SharesFront start stop start' rest)
    (apart : StandsApart (start.textTo stop) rest)
    (inside : start ≤ c)
    (within : d ≤ stop)
    (reads : Reads level (.attribute item) c d) :
    ∃ item', Reads level (.attribute item') (start.copy start' c) (start.copy start' d) := by
  have stops := reads.stopsVisibly rfl
  cases reads with
  | @bareAttribute _ name _ _ spelled nonempty valid named bare =>
      subst named
      have passes : c.Passes name (c.advanceBy name.length) := by
        have passes := c.passes_skipWhile (!isNameDelimiter ·)
        rw [skipWhile, spelled] at passes
        exact passes
      have undelimited := (IsAttributeName.mk nonempty valid).undelimited
      have ends : ∀ ch, (c.advanceBy name.length).peek? = some ch →
          (!isNameDelimiter ch) = false := by
        intro ch next
        rw [← spelled] at next
        exact fails_of_peek?_skipWhile next
      have ends' := shares.ends_copy (P := fun ch => (!isNameDelimiter ch) = false) apart
        (fun ch delimiter => by simp [delimiter]) inside passes nonempty
        (fun ch member => by simpa using undelimited ch member) within ends
      have passes' := shares.passes inside passes within
      exact ⟨_, .bareAttribute (passes'.textWhile undelimited ends') nonempty valid passes'.2
        (shares.eat?_equals_copy apart (Cursor.le_trans inside passes.le) within bare)⟩
  | @valuedAttribute _ name _ _ behind _ spelled nonempty valid equals value =>
      have copied := shares.copied (stops.of_le inside) within
      have named := (c.advanceBy name.length).le_skipBlanks
      have inside_named := Cursor.le_trans inside (c.le_advanceBy name.length)
      have inside_equals := Cursor.le_trans inside_named named
      have inside_behind := Cursor.le_trans inside_equals (Cursor.le_of_lt (lt_of_eat? equals))
      have before_value := (value.stopsVisibly rfl).lt
      have before_behind := Cursor.lt_of_le_of_lt behind.le_skipBlanks before_value
      have before_equals := Cursor.lt_trans (lt_of_eat? equals) before_behind
      obtain ⟨spelled', reached⟩ := textWhile_copy copied inside spelled
        (Cursor.lt_of_le_of_lt named before_equals)
      have inside_value := Cursor.le_trans inside_behind behind.le_skipBlanks
      have copy := value.copies copied inside_value d.le_refl
      rw [← copied.skipBlanks inside_behind before_value] at copy
      refine ⟨_, .valuedAttribute spelled' nonempty valid ?_ copy⟩
      rw [reached, copied.skipBlanks inside_named before_equals]
      exact copied.eat? inside_equals (Cursor.le_of_lt before_behind) equals

end SharesFront

/-! ## Where fronts end -/

/-- Two cursors behind a third one with as much ahead are the same. -/
theorem eq_of_size_eq (inside : start ≤ c) (inside' : start ≤ d) (same : c.size = d.size) :
    c = d := by
  rw [eq_advanceBy_size inside, eq_advanceBy_size inside', same]

/-- A header ends in one place only. -/
theorem eq_of_eatText?
    {expected : String}
    (inside : start ≤ c)
    (inside' : start ≤ d)
    (eaten : c.eatText? expected = some behind)
    (eaten' : d.eatText? expected = some behind) :
    c = d := by
  obtain ⟨⟨more, ahead⟩, rfl⟩ := eatText?_eq_some_iff.mp eaten
  obtain ⟨⟨more', ahead'⟩, same⟩ := eatText?_eq_some_iff.mp eaten'
  have left : more = more' := by
    rw [← rest_advanceBy_length ahead.symm, same, rest_advanceBy_length ahead'.symm]
  refine eq_of_size_eq inside inside' ?_
  rw [size, size, ← ahead, ← ahead', left]

/-- A cursor in front of a bracket that is the last one is told by that. -/
theorem eq_of_last_bracket
    {more : List Char}
    (inside : start ≤ c)
    (inside' : start ≤ d)
    (ahead : c.rest = '<' :: text)
    (ahead' : d.rest = '<' :: more)
    (last : '<' ∉ text)
    (last' : '<' ∉ more) :
    c = d := by
  have beyond {c d : Cursor} {text more : List Char} (inside : start ≤ c) (inside' : start ≤ d)
      (ahead : c.rest = '<' :: text) (ahead' : d.rest = '<' :: more) (last : '<' ∉ text) :
      c.size ≤ d.size := by
    refine Nat.le_of_not_lt fun fewer => last ?_
    have order := le_of_size_le inside inside' (Nat.le_of_lt fewer)
    obtain ⟨ch, front, spelled⟩ := exists_cons_of_textTo ⟨order, fewer⟩
    have split := textTo_append_rest order
    rw [spelled, ahead, ahead', List.cons_append] at split
    rw [← (List.cons.inj split).2]
    exact List.mem_append_right _ List.mem_cons_self
  exact eq_of_size_eq inside inside'
    (Nat.le_antisymm (beyond inside inside' ahead ahead' last)
      (beyond inside' inside ahead' ahead last'))

/-- In front of a cursor with no bracket ahead only one closing tag ends. -/
theorem ClosesTag.unique
    {name : String}
    (closes : ClosesTag c name behind)
    (closes' : ClosesTag d name behind)
    (inside : start ≤ c)
    (inside' : start ≤ d)
    (named : '<' ∉ name.toList)
    (ended : behind.rest = []) :
    c = d := by
  have ahead {c : Cursor} (closes : ClosesTag c name behind) :
      ∃ text, c.rest = '<' :: text ∧ '<' ∉ text := by
    obtain ⟨reached, before, space, blank, blank', spelled⟩ := closes
    refine ⟨_, by rw [← textTo_append_rest reached, spelled, ended, List.append_nil], ?_⟩
    have visible {blanks : List Char} (blank : Blank blanks) : '<' ∉ blanks :=
      fun member => absurd (blank _ member) (by decide)
    simp [named, visible blank, visible blank']
  obtain ⟨text, first, last⟩ := ahead closes
  obtain ⟨text', first', last'⟩ := ahead closes'
  exact eq_of_last_bracket inside inside' first first' last last'

variable {tail : HeaderTail Expression}

/-- The entries of a header end in front of its `/>`. -/
theorem le_of_reads_headerTail
    (reads : Reads level (.headerTail tail) c d)
    (ending : tail.2 = .selfClosing)
    (closes : stop.eatText? "/>" = some d)
    (inside : start ≤ c)
    (inside' : start ≤ stop) :
    c ≤ stop := by
  obtain ⟨last, tiling, closed⟩ := headerTiling_of_reads reads
  rw [ending] at closed
  obtain rfl := eq_of_eatText? (Cursor.le_trans inside tiling.le) inside' closed closes
  exact tiling.le

/-- Content ends in front of its closing tag. -/
theorem le_of_reads_content
    {name : String}
    {left : Boundary}
    {children : List (Child Expression)}
    (reads : Reads level (.content name left children) c d)
    (closes : ClosesTag stop name d)
    (named : '<' ∉ name.toList)
    (ended : d.rest = [])
    (inside : start ≤ c)
    (inside' : start ≤ stop) :
    c ≤ stop := by
  obtain ⟨last, tiling, closed⟩ := tiling_of_reads reads
  obtain rfl := closed.unique closes (Cursor.le_trans inside tiling.le) inside' named ended
  exact tiling.le

/-! ## Failing behind a front -/

section Fails

variable {name : String}

/-- A header fails with what comes behind the entries of its front. -/
theorem SharesFront.failsHeaderTail
    (shares : SharesFront start stop start' rest)
    (apart : StandsApart (start.textTo stop) rest)
    (reads : Reads level (.headerTail tail) c d)
    (inside : start ≤ c)
    (ending : tail.2 = .selfClosing)
    (closes : stop.eatText? "/>" = some d)
    (next : (start.copy start' stop).skipBlanks = here)
    (fails : EntryFails fault here level) :
    FailsHeaderTail level fault (start.copy start' c) := by
  generalize phraseEq : Phrase.headerTail tail = phrase at reads
  induction reads generalizing tail with
  | headerEnd =>
      cases phraseEq
      cases ending
  | @selfClosingEnd _ c _ closed =>
      cases phraseEq
      obtain rfl := eq_of_eatText? (Cursor.le_trans inside c.le_skipBlanks) shares.le closed closes
      refine fails.failsHeaderTail (Eq.trans ?_ next)
      exact (shares.passes inside (c.passes_skipWhile isBlank) (Cursor.le_refl _)).skipBlanks_eq
        (List.all_eq_true.mp List.all_takeWhile)
  | @spreadItem _ _ tail c behind middle _ opened spread rest _ ih =>
      cases phraseEq
      have ending : tail.2 = .selfClosing := ending
      have stops := spread.stopsVisibly rfl
      have inside_first := Cursor.le_trans inside c.le_skipBlanks
      have inside_behind := Cursor.le_trans inside_first (Cursor.le_of_lt (lt_of_eat? opened))
      have inside_rest := Cursor.le_trans inside_behind spread.le
      have copied := shares.copied (stops.of_le inside_behind)
        (le_of_reads_headerTail rest ending closes inside_rest shares.le)
      have opened' := copied.eat? inside_first spread.le opened
      rw [← copied.skipBlanks inside (Cursor.lt_trans (lt_of_eat? opened) stops.lt)] at opened'
      exact failsHeaderTail_spreadItem opened' (spread.copies copied inside_behind middle.le_refl)
        (ih inside_rest ending closes fails rfl)
  | @attributeItem _ _ tail c middle _ item rest _ ih =>
      cases phraseEq
      have ending : tail.2 = .selfClosing := ending
      have stops := item.stopsVisibly rfl
      have inside_item := Cursor.le_trans inside c.le_skipBlanks
      have inside_rest := Cursor.le_trans inside_item item.le
      have within_item := le_of_reads_headerTail rest ending closes inside_rest shares.le
      have copied := shares.copied (stops.of_le inside_item) within_item
      obtain ⟨item', reads'⟩ := shares.reads_attribute apart inside_item within_item item
      rw [← copied.skipBlanks inside stops.lt] at reads'
      exact failsHeaderTail_attributeItem reads' (ih inside_rest ending closes fails rfl)
  | _ => cases phraseEq

/-- Content fails with what comes behind the children of its front. -/
theorem SharesFront.failsContent
    {left : Boundary}
    {children : List (Child Expression)}
    (shares : SharesFront start stop start' rest)
    (reads : Reads level (.content name left children) c d)
    (inside : start ≤ c)
    (named : '<' ∉ name.toList)
    (closes : ClosesTag stop name d)
    (ended : d.rest = [])
    (fails : MarkFails fault name (start.copy start' stop) level) :
    FailsContent level fault name (start.copy start' c) := by
  generalize phraseEq : Phrase.content name left children = phrase at reads
  induction reads generalizing left children with
  | @closeContent _ length _ _ c _ _ found closing =>
      cases phraseEq
      obtain ⟨fits, unmarked, marked⟩ := ContentMark.unmarked_of_next found
      obtain ⟨more, ahead⟩ := ContentMark.exists_of_next_closingTag marked
      rw [← rest_advanceBy] at ahead
      obtain rfl := (closesTag_of_readClosingTag ahead closing).unique closes
        (Cursor.le_trans inside (c.le_advanceBy length)) shares.le named ended
      exact fails.failsContent (shares.passes inside (c.passes_take fits) (Cursor.le_refl _))
        (unmarked.exchange (startsMark_of_next marked (by decide)) fails.startsMark)
  | @elementChild _ length _ _ _ _ c middle _ found element rest _ ih =>
      cases phraseEq
      have inside_child := Cursor.le_trans inside (c.le_advanceBy length)
      have inside_rest := Cursor.le_trans inside_child element.le
      have stops := element.stopsVisibly rfl
      have copied := shares.copied (stops.of_le inside_child)
        (le_of_reads_content rest closes named ended inside_rest shares.le)
      have copy := element.copies copied inside_child middle.le_refl
      obtain ⟨found', moved⟩ := next_copy copied inside stops.lt found (by decide)
        (ContentMark.next_of_startsMarkup (startsMarkup_of_element ⟨_, copy⟩))
      rw [moved] at copy
      exact failsContent_child (.element found' copy.isRead) (ih inside_rest closes ended fails rfl)
  | @bracesChild _ length _ _ _ _ c middle _ found braces rest _ ih =>
      cases phraseEq
      obtain ⟨fits, -, marked⟩ := ContentMark.unmarked_of_next found
      obtain ⟨more, ahead⟩ := ContentMark.exists_of_next_brace marked
      rw [← rest_advanceBy] at ahead
      have inside_child := Cursor.le_trans inside (c.le_advanceBy length)
      have inside_rest := Cursor.le_trans inside_child braces.le
      have stops := braces.stopsVisibly rfl
      have copied := shares.copied (stops.of_le inside_child)
        (le_of_reads_content rest closes named ended inside_rest shares.le)
      have opens := copied.peek? inside_child stops.lt
      rw [peek?_eq_some_iff.mpr ⟨more, ahead⟩] at opens
      obtain ⟨more', ahead'⟩ := peek?_eq_some_iff.mp opens
      obtain ⟨found', moved⟩ := next_copy copied inside stops.lt found (by decide)
        (by rw [ahead']; exact ContentMark.next_brace more')
      have copy := braces.copies copied inside_child middle.le_refl
      rw [moved] at copy
      exact failsContent_child (.braces found' copy.isRead) (ih inside_rest closes ended fails rfl)
  | _ => cases phraseEq

end Fails

end EmbeddedMarkup
