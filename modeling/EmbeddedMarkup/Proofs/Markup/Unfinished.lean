import EmbeddedMarkup.Proofs.Markup.Lookahead
import EmbeddedMarkup.Proofs.Reading.Fronts
import EmbeddedMarkup.Proofs.Text.Exchange

/-!
# Unfinished elements

An element is unfinished where only its end is missing: with `/>` behind its header, or with a
closing tag behind its content, the text would be an element.  An attribute name that starts with a
digit, or a closing tag of another name, is at fault there.  The fault is found where it stands and
comes out unchanged, whatever follows, and however many unfinished elements are around it.
-/

namespace EmbeddedMarkup

open Cursor

/-! ## Fronts of elements -/

/-- The text is a source that is read as this element, within a budget. -/
def SpellsElement (budget : Nat) (text : List Char) (element : Element Expression) : Prop :=
  ∃ modes stop, stop.rest = [] ∧
    (readElement hostDelegate (.initial budget) (.ofText (String.ofList text))).Yields element
      modes stop

/-- The text is an element up to a place between two entries of its header: it lacks its `/>`. -/
def IsOpenHeader (level : Nat) (text : List Char) : Prop :=
  ∃ element, SpellsElement (level + 1) (text ++ "/>".toList) element ∧ element.closingName = none

/-- The text is an element `name` up to a place in its content: it lacks its closing tag. -/
def IsOpenContent (level : Nat) (name text : List Char) : Prop :=
  ∃ element, SpellsElement (level + 1) (text ++ ("</".toList ++ (name ++ ['>']))) element ∧
    element.closingName = some (String.ofList name)

variable
  {level : Nat}
  {start c d : Cursor}
  {source : String}
  {front rest text name blanks : List Char}
  {fault : Fault}
  {element : Element Expression}

theorem SpellsElement.reads {budget : Nat} (spells : SpellsElement budget text element) :
    ∃ stop, stop.rest = [] ∧
      Reads budget (.element element) (.ofText (String.ofList text)) stop := by
  obtain ⟨modes, stop, ended, yields⟩ := spells
  exact ⟨stop, ended, (reads_of_readElement (List.cons_ne_nil _ _) yields).2⟩

theorem textTo_placeBehind (front later : List Char) :
    (ofText (String.ofList (front ++ later))).textTo (placeBehind front later) = front := by
  apply textTo_eq_of_rest
  rw [rest_placeBehind]
  exact String.toList_ofList

/-- The front of an element is shared with every place where it is ahead. -/
theorem sharesFront_of_reads
    {later : List Char}
    {stop : Cursor}
    (reads : Reads level (.element element) (.ofText (String.ofList (front ++ later))) stop)
    (place : .ofText source ≤ start)
    (ahead : start.rest = front ++ rest) :
    SharesFront (.ofText (String.ofList (front ++ later))) (placeBehind front later) start
      rest where
  le := le_advanceBy _ _
  ahead := by rw [ahead, textTo_placeBehind]
  opens := ⟨_, opens_of_reads_element reads, rfl⟩
  column_pos := column_pos_ofText (Cursor.le_refl _)
  column_pos' := column_pos_ofText place

theorem copy_placeBehind (front later : List Char) (start : Cursor) :
    (ofText (String.ofList (front ++ later))).copy start (placeBehind front later) =
      start.advanceBy front.length := by
  rw [placeBehind, copy_advanceBy (Cursor.le_refl _), copy_self]
  rw [size, ofText, String.toList_ofList, List.length_append]
  exact Nat.le_add_right _ _

/-- What an element lacks ends with it. -/
theorem passes_placeBehind_later
    {later : List Char}
    {stop : Cursor}
    (reached : .ofText (String.ofList (front ++ later)) ≤ stop)
    (ended : stop.rest = []) :
    (placeBehind front later).Passes later stop := by
  have behind := @passes_advanceBy (placeBehind front later) later []
    (by rw [rest_placeBehind, List.append_nil])
  have same : stop = (placeBehind front later).advanceBy later.length := by
    refine eq_of_size_eq reached (Cursor.le_trans (le_advanceBy _ front.length) behind.le) ?_
    have left := behind.1
    rw [rest_placeBehind, List.self_eq_append_right] at left
    rw [size, size, ended, left]
  rwa [same]

theorem exists_peek?_of_readTagName
    {name : String}
    {reached : c ≤ d}
    (named : readTagName c = .ok ⟨name, d, reached⟩) :
    ∃ ch, c.peek? = some ch ∧ isBlank ch = false := by
  have ahead := rest_of_readTagName named
  obtain ⟨first, more, spelled, start⟩ := (isTagName_of_readTagName named).exists_cons
  rw [spelled] at ahead
  exact ⟨first, peek?_eq_some_iff.mpr ⟨_, ahead⟩, isBlank_eq_false_of_isIdentifierStart start⟩

/-- An entry of a tag header starts with neither a blank nor an equals sign. -/
def StartsEntry (text : List Char) : Prop :=
  ∃ first more, text = first :: more ∧ isBlank first = false ∧ first ≠ '='

theorem StartsEntry.standsApart (starts : StartsEntry text) (unprolonged : Unprolonged front text) :
    StandsApart front (text ++ rest) := by
  obtain ⟨first, more, rfl, visible, bare⟩ := starts
  exact ⟨unprolonged, by simp [visible, bare]⟩

theorem StartsEntry.skipBlanks (starts : StartsEntry text) (ahead : c.rest = text ++ rest) :
    c.skipBlanks = c := by
  obtain ⟨first, more, rfl, visible, -⟩ := starts
  exact skipBlanks_of_peek? (peek?_eq_some_iff.mpr ⟨_, ahead⟩) visible

theorem startsEntry_of_undelimited
    (nonempty : text ≠ [])
    (undelimited : ∀ ch ∈ text, (!isNameDelimiter ch) = true) :
    StartsEntry text := by
  obtain ⟨first, more, rfl, visible⟩ := visible_of_undelimited nonempty undelimited
  refine ⟨first, more, rfl, visible, ?_⟩
  rintro rfl
  cases undelimited '=' List.mem_cons_self

/-- An element fails with what comes behind the entries of its header. -/
theorem IsOpenHeader.failsElement
    (isOpen : IsOpenHeader level front)
    (place : .ofText source ≤ start)
    (ahead : start.rest = front ++ (text ++ rest))
    (unprolonged : Unprolonged front text)
    (starts : StartsEntry text)
    (fails : EntryFails fault (start.advanceBy front.length) level) :
    FailsElement (level + 1) fault start := by
  have apart : StandsApart front (text ++ rest) := starts.standsApart unprolonged
  have next := starts.skipBlanks (rest_advanceBy_length ahead)
  obtain ⟨element, spells, unclosed⟩ := isOpen
  obtain ⟨stop, ended, reads⟩ := spells.reads
  have shares := sharesFront_of_reads reads place ahead
  rw [← textTo_placeBehind front "/>".toList] at apart
  have closes := (passes_placeBehind_later reads.le ended).eatText?
  rw [← copy_placeBehind front "/>".toList start] at next fails
  cases reads with
  | closedElement => cases unclosed
  | @selfClosingElement _ _ _ inside _ opened header ending =>
      cases header with
      | fragmentHeader => cases ending
      | @namedHeader _ _ _ _ named _ reached tagged tail =>
          have inside_name := Cursor.le_of_lt (lt_of_eat? opened)
          have inside_first := Cursor.le_trans inside_name inside.le_skipBlanks
          have inside_tail := Cursor.le_trans inside_first reached
          have within := le_of_reads_headerTail tail ending closes inside_tail shares.le
          have within_first := Cursor.le_trans reached within
          obtain ⟨reached', tagged'⟩ :=
            shares.readTagName_copy apart inside_first within tagged
          obtain ⟨ch, visible, unblank⟩ := exists_peek?_of_readTagName tagged'
          have skipped := (shares.passes inside_name (inside.passes_skipWhile isBlank)
            within_first).skipBlanks (List.all_eq_true.mp List.all_takeWhile) visible unblank
          have opened' := (shares.passes (Cursor.le_refl _)
            (passes_singleton.mpr (eat?_eq_some_iff.mp opened))
            (Cursor.le_trans inside.le_skipBlanks within_first)).eat?
          rw [copy_self] at opened'
          exact failsElement_of_headerTail opened' skipped tagged'
            (shares.failsHeaderTail apart tail inside_tail ending closes next fails)

theorem bracket_not_mem_of_reads_header
    {header : Header Expression}
    (reads : Reads level (.header header) c d) :
    '<' ∉ header.name.toList := by
  cases reads with
  | fragmentHeader => simp
  | namedHeader named => exact (isTagName_of_readTagName named).continues.bracket_not_mem

/-- An element fails with what comes behind the children in its content. -/
theorem IsOpenContent.failsElement
    (isOpen : IsOpenContent level name front)
    (place : .ofText source ≤ start)
    (ahead : start.rest = front ++ rest)
    (fails : MarkFails fault (String.ofList name) (start.advanceBy front.length) level) :
    FailsElement (level + 1) fault start := by
  obtain ⟨element, spells, named⟩ := isOpen
  obtain ⟨stop, ended, reads⟩ := spells.reads
  have shares := sharesFront_of_reads reads place ahead
  have closes := passes_placeBehind_later reads.le ended
  rw [← copy_placeBehind front ("</".toList ++ (name ++ ['>'])) start] at fails
  cases reads with
  | selfClosingElement => cases named
  | @closedElement _ header _ _ inside behind _ opened reads ending content =>
      have named : header.name = String.ofList name := Option.some.inj named
      rw [← named] at fails
      have inside_header := Cursor.le_of_lt (lt_of_eat? opened)
      have inside_content := Cursor.le_trans inside_header reads.le
      have bracket : '<' ∉ header.name.toList := bracket_not_mem_of_reads_header reads
      have closes : ClosesTag _ header.name stop :=
        ⟨closes.le, [], [], blank_nil, blank_nil, by
          rw [textTo_eq_of_rest closes.1, named, String.toList_ofList]
          simp⟩
      have within := le_of_reads_content content closes bracket ended inside_content shares.le
      have copied := shares.copied ((reads.stopsVisibly rfl).of_le inside_header) within
      have opened' := copied.eat? (Cursor.le_refl _) reads.le opened
      rw [copy_self] at opened'
      have header' := reads.copies copied inside_header behind.le_refl
      exact failsElement_of_content opened' header' ending
        (shares.failsContent content inside_content bracket closes ended fails)

/-! ## Tags alone -/

theorem Reads.spellsElement
    {stop : Cursor}
    (reads : Reads level (.element element) (.ofText (String.ofList text)) stop)
    (ended : stop.rest = []) :
    SpellsElement level text element :=
  ⟨_, stop, ended, reads.yields_readElement (ModeStack.admits_initial level)⟩

theorem exists_passes_ofText (text : List Char) :
    ∃ stop, (ofText (String.ofList text)).Passes text stop ∧ stop.rest = [] := by
  have ahead : (ofText (String.ofList text)).rest = text ++ [] := by
    rw [List.append_nil]
    exact String.toList_ofList
  exact ⟨_, passes_advanceBy ahead, rest_advanceBy_length ahead⟩

theorem reads_headerTail_bracket (passes : c.Passes ['>'] d) :
    Reads level (.headerTail ([], .content)) c d := by
  refine .headerEnd ?_
  rw [skipBlanks_of_peek? (passes_cons.mp passes).1 rfl]
  exact passes.eat?

/-- The name in a tag is an open header. -/
theorem isOpenHeader_tag (isName : IsTagName name) (blank : Blank blanks) :
    IsOpenHeader level ('<' :: (name ++ blanks)) := by
  obtain ⟨stop, passes, ended⟩ := exists_passes_ofText ('<' :: (name ++ (blanks ++ "/>".toList)))
  rw [IsOpenHeader, List.cons_append, List.append_assoc]
  obtain ⟨opens, passes⟩ := passes_cons.mp passes
  obtain ⟨named, passes, closes⟩ := passes_append.mp passes
  obtain ⟨slash, space, closes⟩ := passes_append.mp closes
  have ends : EndsTagName named.rest := by
    rw [space.1, closes.1]
    exact endsTagName_of_blank blank (endsTagName_cons.mpr (by decide))
  have tail : Reads level (.headerTail ([], .selfClosing)) named stop := by
    refine .selfClosingEnd ?_
    rw [space.skipBlanks blank (passes_cons.mp closes).1 rfl]
    exact closes.eatText?
  have reads := (reads_element_iff isName opens passes ends).mpr
    ⟨_, stop, tail, .inl ⟨rfl, rfl, rfl⟩⟩
  exact ⟨_, reads.spellsElement ended, rfl⟩

/-- A tag is open content. -/
theorem isOpenContent_tag (isName : IsTagName name) :
    IsOpenContent level name ('<' :: (name ++ ['>'])) := by
  obtain ⟨stop, passes, ended⟩ :=
    exists_passes_ofText ('<' :: (name ++ (['>'] ++ ("</".toList ++ (name ++ ['>'])))))
  rw [IsOpenContent, List.cons_append, List.append_assoc]
  obtain ⟨opens, passes⟩ := passes_cons.mp passes
  obtain ⟨named, passes, closes⟩ := passes_append.mp passes
  obtain ⟨behind, bracket, closes⟩ := passes_append.mp closes
  have ends := endsTagName_of_peek? (passes_cons.mp bracket).1 (by decide)
  have content : Reads level (.content (String.ofList name) .tag []) behind stop :=
    (reads_content_iff_of_closing isName closes).mpr ⟨rfl, rfl⟩
  have reads := (reads_element_iff isName opens passes ends).mpr
    ⟨_, behind, reads_headerTail_bracket bracket, .inr ⟨rfl, _, content, rfl⟩⟩
  exact ⟨_, reads.spellsElement ended, rfl⟩

/-! ## Names that do not match -/

/-- Nothing in `rest` prolongs the name of a closing tag, which may be empty. -/
def EndsClosingName (name rest : List Char) : Prop :=
  name = [] ∧ startsIdentifier (rest.dropWhile isBlank) = false ∨ IsTagName name ∧ EndsTagName rest

theorem readClosingName_of_ends
    {other : List Char}
    (ahead : c.rest = blanks ++ (other ++ rest))
    (blank : Blank blanks)
    (ends : EndsClosingName other rest) :
    ∃ named reached, readClosingName c.skipBlanks = .ok ⟨String.ofList other, named, reached⟩ := by
  have before : c.Passes blanks (c.advanceBy blanks.length) := passes_advanceBy ahead
  rcases ends with ⟨rfl, unnamed⟩ | ⟨isName, ends⟩
  · rw [readClosingName, rest_skipBlanks, ahead, List.dropWhile_append_of_pos blank,
      List.nil_append, unnamed]
    exact ⟨_, _, rfl⟩
  · have named := passes_advanceBy (rest_advanceBy_length ahead)
    obtain ⟨first, more, rfl, start⟩ := isName.exists_cons
    have visible := isBlank_eq_false_of_isIdentifierStart start
    rw [before.skipBlanks blank (passes_cons.mp named).1 visible, readClosingName, named.1,
      if_pos (startsIdentifier_append isName.start)]
    refine ⟨_, readDottedName_eq_ok isName named ?_⟩
    rwa [rest_advanceBy_length (rest_advanceBy_length ahead)]

/-- A closing tag of another name is at fault, whatever comes behind the name. -/
theorem readClosingTag_eq_error
    {other : List Char}
    (ahead : c.rest = "</".toList ++ (blanks ++ (other ++ rest)))
    (blank : Blank blanks)
    (ends : EndsClosingName other rest)
    (differs : other ≠ name) :
    readClosingTag c (String.ofList name) =
      .error (.markup (.mismatchedTags ⟨String.ofList name, String.ofList other⟩) c.position) := by
  obtain ⟨named, reached, read⟩ := readClosingName_of_ends (rest_advanceBy_length ahead) blank ends
  have mismatch : String.ofList other ≠ String.ofList name :=
    fun same => differs (String.ofList_injective same)
  unfold readClosingTag
  dsimp only
  split <;> rename_i found
  · cases found.symm.trans read
  · cases found.symm.trans read
    rw [if_pos mismatch]

/-! ## What breaks off an element -/

/-- What leads from the start of an entry in a tag header to the start of its hole. -/
inductive OpensHeaderHole : List Char → Prop
  | value {name before behind blanks : List Char} :
      IsAttributeName name →
      Blank before →
      Blank behind →
      Blank blanks →
      OpensHeaderHole (name ++ (before ++ '=' :: (behind ++ '\x7b' :: blanks)))
  | spread {before blanks : List Char} :
      Blank before →
      Blank blanks →
      OpensHeaderHole ('\x7b' :: (before ++ ("...".toList ++ blanks)))

/--
The text `sound` is an unfinished element, which `broken` breaks off with a fault at its start; what
stands behind the fault is left open.  The fault is in the element itself, or in an unfinished
element that is its next child or stands at the start of its next hole.  What nests in one another
takes `level` levels at most, and `message` is what is wrong.
-/
inductive BreaksOff : Nat → List Char → List Char → String → Prop
  | number {level : Nat} {front token rest : List Char} {first : Char} :
      IsOpenHeader level front →
      Unprolonged front (first :: token) →
      first.isDigit = true →
      (∀ ch ∈ first :: token, isNameDelimiter ch = false) →
      (∀ ch, rest.head? = some ch → isNameDelimiter ch = true) →
      BreaksOff (level + 1) front (first :: token ++ rest)
        ("Invalid attribute name " ++ quoted (String.ofList (first :: token)) ++
          ": attribute names cannot start with a number")
  | mismatch {level : Nat} {name front blanks other rest : List Char} :
      IsOpenContent level name front →
      Blank blanks →
      other ≠ name →
      EndsClosingName other rest →
      BreaksOff (level + 1) front ("</".toList ++ (blanks ++ (other ++ rest)))
        ("JSX element has mismatched opening and closing tags: '<" ++ String.ofList name ++
          ">' and '</" ++ String.ofList other ++ ">'")
  | child {level : Nat} {name front sound broken : List Char} {message : String} :
      IsOpenContent level name front →
      BreaksOff level sound broken message →
      BreaksOff (level + 1) (front ++ sound) broken message
  | contentHole {level : Nat} {name front blanks sound broken : List Char} {message : String} :
      IsOpenContent (level + 1) name front →
      Blank blanks →
      BreaksOff level sound broken message →
      BreaksOff (level + 2) (front ++ '\x7b' :: blanks ++ sound) broken message
  | headerHole {level : Nat} {front opening sound broken : List Char} {message : String} :
      IsOpenHeader (level + 1) front →
      Unprolonged front opening →
      OpensHeaderHole opening →
      BreaksOff level sound broken message →
      BreaksOff (level + 2) (front ++ opening ++ sound) broken message

theorem OpensHeaderHole.startsEntry (opens : OpensHeaderHole text) : StartsEntry text := by
  cases opens with
  | value isName =>
      obtain ⟨first, more, rfl, visible, bare⟩ :=
        startsEntry_of_undelimited isName.nonempty isName.undelimited
      exact ⟨first, _, rfl, visible, bare⟩
  | spread => exact ⟨_, _, rfl, by decide, by decide⟩

/-- An entry fails with the element at the start of its hole. -/
theorem OpensHeaderHole.entryFails
    (opens : OpensHeaderHole text)
    (passes : c.Passes text d)
    (fails : FailsElement level fault d) :
    EntryFails fault c (level + 1) := by
  obtain ⟨more, tag⟩ := exists_rest_of_startsMarkup fails.tag
  have tag : d.peek? = some '<' := peek?_eq_some_iff.mpr ⟨more, tag⟩
  cases opens with
  | value isName before behind blank =>
      obtain ⟨named, name, passes⟩ := passes_append.mp passes
      obtain ⟨equals, space, passes⟩ := passes_append.mp passes
      obtain ⟨next, passes⟩ := passes_cons.mp passes
      obtain ⟨brace, space', passes⟩ := passes_append.mp passes
      obtain ⟨opened, passes⟩ := passes_cons.mp passes
      have ends : ∀ ch, named.peek? = some ch → (!isNameDelimiter ch) = false := by
        intro ch ahead
        obtain ⟨_, follows⟩ := peek?_eq_some_iff.mp next
        obtain ⟨first, _, delimited, delimiter⟩ :=
          delimited_of_blank before (rfl : isNameDelimiter '=' = true)
        rw [peek?, space.1, follows, delimited] at ahead
        cases ahead
        simp [delimiter]
      have valued : equals.advance.skipBlanks = brace := space'.skipBlanks behind opened rfl
      refine .value (name.textWhile isName.undelimited ends) isName ?_ (by rwa [valued]) ?_
      · rw [← name.2, space.skipBlanks before next rfl]
        exact eat?_eq_some_iff.mpr ⟨next, rfl⟩
      · rwa [valued, passes.skipBlanks blank tag rfl]
  | spread before blank =>
      obtain ⟨brace, passes⟩ := passes_cons.mp passes
      obtain ⟨dotted, space, passes⟩ := passes_append.mp passes
      obtain ⟨behind, dots, space'⟩ := passes_append.mp passes
      have skipped := space.skipBlanks before (passes_cons.mp dots).1 rfl
      refine .spread brace (by rw [skipped]; exact dots.eatText?) ?_
      rwa [space'.skipBlanks blank tag rfl]

/-- Wherever the text is ahead, an element fails with this cause where `broken` starts. -/
def FailsWherever (level : Nat) (sound broken : List Char) (cause : MarkupCause) : Prop :=
  ∀ (source : String) (start : Cursor), .ofText source ≤ start → start.rest = sound ++ broken →
    FailsElement level (.markup cause (start.advanceBy sound.length).position) start

/-- So it does where another text stands in front of it. -/
theorem FailsWherever.behind
    {sound broken : List Char}
    {cause : MarkupCause}
    (fails : FailsWherever level sound broken cause)
    (place : .ofText source ≤ start)
    (ahead : start.rest = front ++ (sound ++ broken)) :
    FailsElement level (.markup cause (start.advanceBy (front ++ sound).length).position)
      (start.advanceBy front.length) := by
  rw [List.length_append, ← advanceBy_advanceBy]
  exact fails source _ (Cursor.le_trans place (start.le_advanceBy _)) (rest_advanceBy_length ahead)

theorem passes_behind (ahead : c.rest = front ++ (text ++ rest)) :
    (c.advanceBy front.length).Passes text (c.advanceBy (front ++ text).length) := by
  rw [List.length_append, ← advanceBy_advanceBy]
  exact passes_advanceBy (rest_advanceBy_length ahead)

/-- The fault that breaks off an element is met, and every reader around it passes it on. -/
theorem BreaksOff.failsWherever
    {sound broken : List Char}
    {message : String}
    (breaks : BreaksOff level sound broken message) :
    ∃ cause, cause.kind = .validation ∧ cause.message = message ∧
      FailsWherever level sound broken cause := by
  induction breaks with
  | @number _ _ token _ first isOpen unprolonged digit undelimited ends =>
      refine ⟨.nameStartsWithDigit (String.ofList (first :: token)), rfl, rfl, ?_⟩
      intro source start place ahead
      have undelimited : ∀ ch ∈ first :: token, (!isNameDelimiter ch) = true :=
        fun ch member => by simp [undelimited ch member]
      have spelled := passes_advanceBy (rest_advanceBy_length ahead)
      refine isOpen.failsElement place ahead unprolonged
        (startsEntry_of_undelimited (List.cons_ne_nil _ _) undelimited)
        (.number (spelled.textWhile undelimited fun ch next => ?_) digit rfl)
      rw [peek?, rest_advanceBy_length (rest_advanceBy_length ahead)] at next
      simp [ends ch next]
  | @mismatch _ name _ _ other _ isOpen blank differs ends =>
      refine ⟨.mismatchedTags ⟨String.ofList name, String.ofList other⟩, rfl, rfl, ?_⟩
      intro source start place ahead
      have tag := rest_advanceBy_length ahead
      exact isOpen.failsElement place ahead
        (.closingTag tag (readClosingTag_eq_error tag blank ends differs))
  | child isOpen _ ih =>
      obtain ⟨cause, kind, said, fails⟩ := ih
      refine ⟨cause, kind, said, ?_⟩
      intro source start place ahead
      rw [List.append_assoc] at ahead
      exact isOpen.failsElement place ahead (.element (fails.behind place ahead))
  | @contentHole _ _ front blanks _ _ _ isOpen blank _ ih =>
      obtain ⟨cause, kind, said, fails⟩ := ih
      refine ⟨cause, kind, said, ?_⟩
      intro source start place ahead
      rw [List.append_assoc] at ahead
      have fails := fails.behind place ahead
      rw [List.append_assoc] at ahead
      have passes := passes_behind ahead
      obtain ⟨brace, space⟩ := passes_cons.mp passes
      obtain ⟨more, tag⟩ := exists_rest_of_startsMarkup fails.tag
      have skipped := space.skipBlanks blank (peek?_eq_some_iff.mpr ⟨more, tag⟩) rfl
      exact isOpen.failsElement place ahead (.hole brace (by rwa [skipped]))
  | @headerHole _ front opening _ _ _ isOpen unprolonged opens _ ih =>
      obtain ⟨cause, kind, said, fails⟩ := ih
      refine ⟨cause, kind, said, ?_⟩
      intro source start place ahead
      rw [List.append_assoc] at ahead
      have fails := fails.behind place ahead
      rw [List.append_assoc] at ahead
      have passes := passes_behind ahead
      exact isOpen.failsElement place ahead unprolonged opens.startsEntry
        (opens.entryFails passes fails)

/--
An element that is broken off fails where it is, with what is wrong there, if enough levels are left
for what nests.
-/
theorem readElement_fails_of_breaksOff
    {sound broken : List Char}
    {message : String}
    {modes : ModeStack}
    (breaks : BreaksOff level sound broken message)
    (place : .ofText source ≤ start)
    (ahead : start.rest = sound ++ broken)
    (admits : modes.Admits level) :
    ∃ fault after, readElement hostDelegate modes start = .failure fault after ∧
      fault.cause.kind = .validation ∧ fault.cause.message = message ∧
      fault.position = (start.advanceBy sound.length).position := by
  obtain ⟨cause, kind, said, fails⟩ := breaks.failsWherever
  obtain ⟨after, failed⟩ :=
    (fails source start place ahead).fails true start modes start.le_refl admits
  exact ⟨_, after, failed, kind, said, rfl⟩

theorem isTagName_singleton {ch : Char} (start : isIdentifierStart ch = true) : IsTagName [ch] := by
  have isChar := isIdentifierChar_of_isIdentifierStart start
  exact ⟨start, .char (by simp [isMarkupNameChar, isChar]) .nil⟩

theorem unprolonged_space : Unprolonged (front ++ [' ']) rest := by
  intro last found letter
  rw [List.getLast?_concat] at found
  cases found
  cases letter

/-- A closing tag of another name, in an element in the value of an attribute in a hole. -/
theorem readElement_fails_of_breaksOff_nested :
    BreaksOff 5 "<a>\x7b<b c=\x7b<d>".toList "</e".toList
        "JSX element has mismatched opening and closing tags: '<d>' and '</e>'" ∧
      (ModeStack.initial 5).Admits 5 ∧
      ∃ fault after,
        readElement hostDelegate (.initial 5) (.ofText "<a>\x7b<b c=\x7b<d></e") =
          .failure fault after ∧
        fault.cause.kind = .validation ∧
        fault.cause.message =
          "JSX element has mismatched opening and closing tags: '<d>' and '</e>'" ∧
        fault.position = ⟨13, 1, 14⟩ := by
  have a : IsTagName ['a'] := isTagName_singleton rfl
  have b : IsTagName ['b'] := isTagName_singleton rfl
  have d : IsTagName ['d'] := isTagName_singleton rfl
  have e : IsTagName ['e'] := isTagName_singleton rfl
  have mismatch := @BreaksOff.mismatch 0 ['d'] _ [] ['e'] [] (isOpenContent_tag d) blank_nil
    (by decide) (.inr ⟨e, by simp [EndsTagName]⟩)
  have value := @OpensHeaderHole.value ['c'] [] [] [] ⟨by decide, by decide⟩ blank_nil blank_nil
    blank_nil
  have inner := BreaksOff.headerHole (isOpenHeader_tag b blank_space)
    (@unprolonged_space ['<', 'b'] _) value mismatch
  have breaks := BreaksOff.contentHole (isOpenContent_tag a) blank_nil inner
  have admits := ModeStack.admits_initial 5
  exact ⟨breaks, admits, readElement_fails_of_breaksOff breaks (Cursor.le_refl _) rfl admits⟩

/-- Where no level is left, no element is read. -/
theorem fails_readElementBehind_exhausted
    {modes : ModeStack}
    {remembers : Bool}
    {limit : Cursor}
    {ahead : limit ≤ c}
    (tag : startsMarkup c.rest = true)
    (allowed : modes.AllowsTags)
    (exhausted : modes.levels = 0) :
    Ending.Fails (readElementBehind (hostBehind remembers limit) modes c ahead)
      ⟨.mode (.tooManyTags modes.budget), c.position⟩ := by
  obtain ⟨inside, opens, -⟩ := startsMarkup_iff.mp tag
  rw [readElementBehind]
  split <;> rename_i found <;> rw [opens] at found <;> cases found
  rw [Outcome.afterStep, ModeStack.openTag_eq_error allowed exhausted]
  exact Outcome.fails_failure

/-- Where one level is left, the child of an element is refused, whatever else is wrong with it. -/
theorem readElement_fails_of_child
    {modes : ModeStack}
    (isName : IsTagName name)
    (passes : start.Passes ('<' :: (name ++ ['>'])) c)
    (tag : startsMarkup c.rest = true)
    (admits : modes.Admits 1)
    (last : modes.levels = 1) :
    Ending.Fails (readElement hostDelegate modes start)
      ⟨.mode (.tooManyTags modes.budget), c.position⟩ := by
  obtain ⟨opens, passes⟩ := passes_cons.mp passes
  obtain ⟨named, passes, closes⟩ := passes_append.mp passes
  have ends := endsTagName_of_peek? (passes_cons.mp closes).1 (by decide)
  have header := (@reads_header_iff 0 _ _ _ _ _ isName passes ends).mpr
    ⟨_, rfl, reads_headerTail_bracket closes⟩
  have exhausted := modes.levels_push_frame .tagContent
  rw [last] at exhausted
  rw [readElement, readElementBehind]
  split <;> rename_i found <;> rw [eat?_of_peek? opens] at found <;> cases found
  refine Outcome.fails_afterStep admits.openTag ?_
  refine (header.isRead true start _ _ _ _ rfl (Nat.zero_le _)).fails_andThen fun _ => ?_
  refine Outcome.fails_afterStep ModeStack.enterContent_push (.andThen ?_)
  rw [readContentBehind]
  simp only [ContentMark.next_of_startsMarkup tag]
  refine .andThen ?_
  have here : (ContentMark.next c.rest).1 = 0 := by rw [ContentMark.next_of_startsMarkup tag]
  generalize (ContentMark.next c.rest).1 = length at here ⊢
  subst here
  exact fails_readElementBehind_exhausted tag
    (ModeStack.admits_of_tagContent rfl (Nat.zero_le _)).allowsTags exhausted

/-- An element that is broken off is refused, and not invalid, where too few levels are left. -/
theorem readElement_refuses_breaksOff_nested :
    BreaksOff 2 "<a><b ".toList "1x".toList
        "Invalid attribute name '1x': attribute names cannot start with a number" ∧
      ∃ fault after,
        readElement hostDelegate (.initial 1) (.ofText "<a><b 1x") = .failure fault after ∧
        fault.cause.kind = .structural ∧
        fault.cause.message = "Maximum markup nesting depth of 1 exceeded" := by
  have a : IsTagName ['a'] := isTagName_singleton rfl
  have b : IsTagName ['b'] := isTagName_singleton rfl
  have number := @BreaksOff.number 0 _ ['x'] [] '1' (isOpenHeader_tag b blank_space)
    (@unprolonged_space ['<', 'b'] _) rfl (by decide) (by simp)
  have breaks := BreaksOff.child (isOpenContent_tag a) number
  have passes := @passes_advanceBy (.ofText "<a><b 1x") "<a>".toList "<b 1x".toList rfl
  obtain ⟨after, failed⟩ :=
    readElement_fails_of_child a passes rfl (ModeStack.admits_initial 1) rfl
  exact ⟨breaks, _, after, failed, rfl, rfl⟩

end EmbeddedMarkup
