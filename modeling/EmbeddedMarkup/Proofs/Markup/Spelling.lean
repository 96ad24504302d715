import EmbeddedMarkup.Proofs.Expression.Enclosed
import EmbeddedMarkup.Proofs.Markup.Marks
import EmbeddedMarkup.Proofs.Markup.TagNames
import EmbeddedMarkup.Proofs.Reading.Leading

/-!
# Texts of markup

A text is a phrase of markup when it is read as that phrase wherever it stands, up to spans.
There is one lemma for every way to write markup; each says what the parts have to be, and where
blank space may stand between them.
-/

namespace EmbeddedMarkup

variable {text rest blanks before behind : List Char} {expression : Expression} {c d : Cursor}

/-! ## Holes -/

section Holes

/-- In front of a closing brace there is only blank space to skip. -/
theorem skipTrivia_of_brace (closes : c.skipBlanks.peek? = some '\x7d') :
    skipTrivia c = ⟨.ok (), c.skipBlanks⟩ := by
  obtain ⟨more, ahead⟩ := Cursor.peek?_eq_some_iff.mp closes
  apply skipTrivia_eq_skipBlanks
  rw [ahead]
  rfl

theorem nextLexeme_of_brace (closes : c.skipBlanks.peek? = some '\x7d') :
    NextLexeme c (.symbol .rightBrace) c.skipBlanks.advance := by
  obtain ⟨more, ahead⟩ := Cursor.peek?_eq_some_iff.mp closes
  have read : LexemeReading.ofChars c.skipBlanks.rest = .found (.symbol .rightBrace) 1 := by
    rw [ahead]
    rfl
  exact nextLexeme_of_skipTrivia (skipTrivia_of_brace closes) read

/-- The lexeme that an expression starts with starts an operand. -/
theorem Makes.startsOperand
    {power : Nat}
    {lexeme : Lexeme}
    {stop : Cursor}
    (makes : Makes (.expression power expression) c d)
    (next : NextLexeme c lexeme stop) :
    lexeme.startsOperand = true := by
  obtain ⟨found, stop', next', starts⟩ := makes.exists_nextLexeme
  obtain ⟨rfl, -⟩ := next.unique next'
  exact starts

/-- Behind blank space an expression closes no hole and starts no spread. -/
theorem Makes.starts_filled
    {power : Nat}
    (makes : Makes (.expression power expression) c d)
    (still : c.skipBlanks = c) :
    c.peek? ≠ some '\x7d' ∧ "...".toList.isPrefixOf c.rest = false := by
  constructor
  · intro closes
    rw [← still] at closes
    cases makes.startsOperand (nextLexeme_of_brace closes)
  · rw [Bool.eq_false_iff, ne_eq, List.isPrefixOf_iff_prefix]
    rintro ⟨more, ahead⟩
    have skipped : skipTrivia c = ⟨.ok (), c⟩ := by
      rw [skipTrivia_eq_skipBlanks, still]
      rw [still, ← ahead]
      rfl
    have read : LexemeReading.ofChars c.rest = .found (.symbol .ellipsis) 3 := by
      rw [← ahead]
      rfl
    cases makes.startsOperand (nextLexeme_of_skipTrivia skipped read)

/-- An expression without trivia in front of it starts no comment either. -/
theorem Makes.starts_plain
    {power : Nat}
    (makes : Makes (.expression power expression) c d)
    (skipped : skipTrivia c = ⟨.ok (), c⟩) :
    c.peek? ≠ some '\x7d' ∧ "...".toList.isPrefixOf c.rest = false ∧ c.startsWith "/*" = false := by
  obtain ⟨still, plain⟩ := of_skipTrivia skipped
  obtain ⟨filled, unspread⟩ := makes.starts_filled still
  refine ⟨filled, unspread, ?_⟩
  rw [Bool.eq_false_iff, ne_eq, Cursor.startsWith, List.isPrefixOf_iff_prefix]
  rintro ⟨more, ahead⟩
  rw [← ahead] at plain
  have comment : CommentReading.ofChars ('/' :: '*' :: more) = .absent := plain
  simp only [CommentReading.ofChars] at comment
  split at comment <;> cases comment

/-- Nothing is connected in front of a closing brace. -/
theorem released_of_brace
    {release : Nat}
    (blank : Blank blanks)
    (passes : c.Passes (blanks ++ ['\x7d']) d) :
    Released release c := by
  obtain ⟨brace, passesBlanks, passesBrace⟩ := Cursor.passes_append.mp passes
  have closes := (Cursor.passes_cons.mp passesBrace).1
  have skipped := passesBlanks.skipBlanks blank closes rfl
  obtain ⟨more, ahead⟩ := Cursor.peek?_eq_some_iff.mp closes
  rw [← skipped] at closes
  refine ⟨?_, _, _, nextLexeme_of_brace closes, rfl, fun _ none => nomatch none⟩
  rw [passesBlanks.1, ahead]
  exact separated_append blank (separated_cons.mpr (by decide))

/-- The text behind an opening brace, up to the closing one, is a hole. -/
structure IsHole (text : List Char) (part : Option Expression) : Prop where
  reads : ∀ ⦃c d : Cursor⦄, c.Passes text d → ∃ read : Option Expression,
    read.map Expression.withoutSpans = part.map Expression.withoutSpans ∧ Makes (.hole read) c d
  /-- It is neither a comment nor a spread. -/
  plain : ∀ ⦃c d : Cursor⦄, c.Passes text d →
    startsSpread c.rest = false ∧ c.skipBlanks.startsWith "/*" = false

/-- The text behind an opening brace, up to the closing one, is a spread. -/
def IsSpread (text : List Char) (expression : Expression) : Prop :=
  ∀ ⦃c d⦄, c.Passes text d → ∃ read, read.withoutSpans = expression.withoutSpans ∧
    Makes (.spread read) c d

/-- An expression with blank space around it is read up to the brace behind it. -/
theorem Leads.makes_up_to_brace
    (leads : Leads 0 0 text expression)
    (blank : Blank before)
    (blank' : Blank behind)
    (passes : c.Passes (before ++ (text ++ (behind ++ ['\x7d']))) d) :
    ∃ read middle, read.withoutSpans = expression.withoutSpans ∧
      skipTrivia c.skipBlanks = ⟨.ok (), c.skipBlanks⟩ ∧
      Makes (.expression 0 read) c.skipBlanks middle ∧
      middle.skipBlanks.eat? '\x7d' = some d := by
  obtain ⟨first, passesBefore, passes⟩ := Cursor.passes_append.mp passes
  obtain ⟨middle, passesText, passes⟩ := Cursor.passes_append.mp passes
  obtain ⟨brace, passesBehind, passesBrace⟩ := Cursor.passes_append.mp passes
  have stands : Stands text c middle := ⟨before, first, blank, passesBefore, passesText⟩
  have stands' := stands_of_passes (stands.passes_skipBlanks leads.visible)
  have released := @released_of_brace _ _ _ 0 blank' passes
  obtain ⟨read, same, makes⟩ := leads.makes stands' released released
  have skipped := (leads.reads stands' released).1
  rw [Cursor.skipBlanks_skipBlanks] at skipped
  refine ⟨read, middle, same, skipped, makes, ?_⟩
  rw [passesBehind.skipBlanks blank' (Cursor.passes_cons.mp passesBrace).1 rfl]
  exact passesBrace.eat?

/-- Braces with nothing but blank space between them are an empty hole. -/
theorem isHole_empty (blank : Blank blanks) : IsHole (blanks ++ ['\x7d']) none := by
  constructor
  · intro c d passes
    obtain ⟨brace, passesBlanks, passesBrace⟩ := Cursor.passes_append.mp passes
    refine ⟨none, rfl, 0, .emptyHole ?_⟩
    rw [passesBlanks.skipBlanks blank (Cursor.passes_cons.mp passesBrace).1 rfl]
    exact passesBrace.eat?
  · intro c d passes
    obtain ⟨brace, passesBlanks, passesBrace⟩ := Cursor.passes_append.mp passes
    obtain ⟨closes, -⟩ := Cursor.passes_cons.mp passesBrace
    obtain ⟨more, ahead⟩ := Cursor.peek?_eq_some_iff.mp closes
    have skipped := passesBlanks.skipBlanks blank closes rfl
    constructor
    · rw [startsSpread, ← Cursor.rest_skipBlanks, skipped, ahead]
      rfl
    · rw [skipped, Cursor.startsWith, ahead]
      rfl

/-- Braces around an expression are a hole. -/
theorem Leads.isHole
    (leads : Leads 0 0 text expression)
    (blank : Blank before)
    (blank' : Blank behind) :
    IsHole (before ++ (text ++ (behind ++ ['\x7d']))) (some expression) := by
  constructor
  · intro c d passes
    obtain ⟨read, middle, same, skipped, makes, closes⟩ :=
      leads.makes_up_to_brace blank blank' passes
    have plain := makes.starts_plain skipped
    obtain ⟨level, reads⟩ := makes
    exact ⟨some read, by simp [same], level, .filledHole plain.1 reads closes⟩
  · intro c d passes
    obtain ⟨read, middle, same, skipped, makes, closes⟩ :=
      leads.makes_up_to_brace blank blank' passes
    obtain ⟨-, unspread, uncommented⟩ := makes.starts_plain skipped
    refine ⟨?_, uncommented⟩
    rwa [startsSpread, ← Cursor.rest_skipBlanks]

/-- Braces around an ellipsis and an expression are a spread. -/
theorem Leads.isSpread
    (leads : Leads 0 0 text expression)
    (blank : Blank blanks)
    (blank' : Blank before)
    (blank'' : Blank behind) :
    IsSpread (blanks ++ ("...".toList ++ (before ++ (text ++ (behind ++ ['\x7d'])))))
      expression := by
  intro c d passes
  obtain ⟨ellipsis, passesBlanks, passes⟩ := Cursor.passes_append.mp passes
  obtain ⟨behindEllipsis, passesEllipsis, passes⟩ := Cursor.passes_append.mp passes
  obtain ⟨read, middle, same, -, ⟨level, reads⟩, closes⟩ :=
    leads.makes_up_to_brace blank' blank'' passes
  refine ⟨read, same, level, .spread ?_ reads closes⟩
  rw [passesBlanks.skipBlanks blank (Cursor.passes_cons.mp passesEllipsis).1 rfl]
  exact passesEllipsis.eatText?

end Holes

/-! ## Tag headers -/

section Headers

variable {name : List Char} {value : Expression} {quote : Char}

theorem withoutSpans_getD_nullAt
    {first second : Option Expression}
    {span span' : Span}
    (same : first.map Expression.withoutSpans = second.map Expression.withoutSpans) :
    (first.getD (HostConstants.nullAt span)).withoutSpans =
      (second.getD (HostConstants.nullAt span')).withoutSpans := by
  cases first <;> cases second <;> simp_all [HostConstants.nullAt]

/-- The name of an attribute. -/
structure IsAttributeName (name : List Char) : Prop where
  nonempty : name ≠ []
  valid : attributeNameFault? name = none

/-- A character of a name is no delimiter. -/
theorem isNameDelimiter_eq_false {ch : Char} (isChar : isMarkupNameChar ch = true) :
    isNameDelimiter ch = false := by
  cases delimiter : isNameDelimiter ch with
  | false => rfl
  | true =>
      simp only [isNameDelimiter, isBlank, Bool.or_eq_true, beq_iff_eq] at delimiter
      rcases delimiter with ((((((((((((rfl | rfl) | rfl) | rfl) | rfl) | rfl) | rfl) | rfl) |
        rfl) | rfl) | rfl) | rfl)) <;> cases isChar

theorem IsAttributeName.undelimited (isName : IsAttributeName name) :
    ∀ ch ∈ name, (!isNameDelimiter ch) = true := by
  intro ch member
  have valid := isName.valid
  unfold attributeNameFault? at valid
  split at valid
  · cases valid
  · split at valid
    · cases valid
    · rename_i good
      simp only [Bool.or_eq_true, not_or, Bool.not_eq_true', Bool.not_eq_false,
        List.all_eq_true] at good
      rw [isNameDelimiter_eq_false (good.2 ch member)]
      rfl

theorem visible_of_undelimited
    (nonempty : name ≠ [])
    (undelimited : ∀ ch ∈ name, (!isNameDelimiter ch) = true) :
    Visible name := by
  cases name with
  | nil => contradiction
  | cons first more =>
      refine ⟨first, more, rfl, ?_⟩
      have delimiter := undelimited first List.mem_cons_self
      simp only [isNameDelimiter, Bool.not_or, Bool.and_eq_true, Bool.not_eq_true'] at delimiter
      simp_all

/-- The text is a value of an attribute. -/
structure IsAttributeValue (text : List Char) (value : Expression) : Prop where
  visible : Visible text
  reads : ∀ ⦃c d : Cursor⦄, c.Passes text d → ∃ read : Expression,
    read.withoutSpans = value.withoutSpans ∧ Makes (.attributeValue read) c d

/-- What is ahead ends the name of an attribute and gives it no value. -/
structure EndsAttribute (d : Cursor) : Prop where
  delimiter : ∀ ch, d.peek? = some ch → isNameDelimiter ch = true
  valueless : d.skipBlanks.peek? ≠ some '='

/-- The text is an attribute where another entry or the end of the header follows. -/
structure IsAttribute (text : List Char) (name : String) (value : Expression) : Prop where
  visible : Visible text
  reads : ∀ ⦃c d : Cursor⦄, c.Passes text d → EndsAttribute d → ∃ read : Attribute Expression,
    read.name = name ∧ read.value.withoutSpans = value.withoutSpans ∧
      Makes (.attribute read) c d

/-- The text is the rest of a header. -/
structure IsHeaderTail (text : List Char) (items : List (AttributeItem Expression))
    (ending : HeaderEnd) : Prop where
  delimited : ∃ ch more, text = ch :: more ∧ isNameDelimiter ch = true
  reads : ∀ ⦃c d : Cursor⦄, c.Passes text d → ∃ read : List (AttributeItem Expression),
    read.map AttributeItem.withoutSpans = items.map AttributeItem.withoutSpans ∧
      Makes (.headerTail (read, ending)) c d

/-- A text between two quotes of a kind is a value, if no such quote stands in it. -/
theorem isAttributeValue_quoted
    {span : Span}
    (isQuote : quote = '"' ∨ quote = '\'')
    (unquoted : quote ∉ text) :
    IsAttributeValue (quote :: (text ++ [quote])) ⟨.string (String.ofList text), span⟩ := by
  constructor
  · refine ⟨quote, _, rfl, ?_⟩
    rcases isQuote with rfl | rfl <;> rfl
  · intro c d passes
    obtain ⟨opens, passes⟩ := Cursor.passes_cons.mp passes
    obtain ⟨closing, passesText, passesQuote⟩ := Cursor.passes_append.mp passes
    have inside : ∀ ch ∈ text, (ch != quote) = true := by
      intro ch member
      rw [bne_iff_ne]
      rintro rfl
      exact unquoted member
    have ends : ∀ ch, closing.peek? = some ch → (ch != quote) = false := by
      intro ch ahead
      rw [(Cursor.passes_cons.mp passesQuote).1] at ahead
      cases ahead
      simp
    have closes : (c.advance.skipWhile (· != quote)).eat? quote = some d := by
      rw [passesText.skipWhile inside ends]
      exact passesQuote.eat?
    refine ⟨_, ?_, 0, .quotedValue isQuote opens closes⟩
    rw [passesText.textWhile inside ends]
    simp

/-- A hole is a value; an empty one is the null constant. -/
theorem IsHole.isAttributeValue
    {part : Option Expression}
    {span : Span}
    (isHole : IsHole text part) :
    IsAttributeValue ('\x7b' :: text) (part.getD (HostConstants.nullAt span)) := by
  refine ⟨⟨'\x7b', text, rfl, rfl⟩, ?_⟩
  intro c d passes
  obtain ⟨opens, passes⟩ := Cursor.passes_cons.mp passes
  obtain ⟨read, same, level, reads⟩ := isHole.reads passes
  refine ⟨_, ?_, level, .holeValue opens reads⟩
  exact withoutSpans_getD_nullAt same

/-- A name alone is an attribute. -/
theorem IsAttributeName.isAttribute
    {span : Span}
    (isName : IsAttributeName name) :
    IsAttribute name (String.ofList name) (HostConstants.trueAt span) := by
  refine ⟨visible_of_undelimited isName.nonempty isName.undelimited, ?_⟩
  intro c d passes ends
  have spelled : c.textWhile (!isNameDelimiter ·) = name :=
    passes.textWhile isName.undelimited fun ch ahead => by simp [ends.delimiter ch ahead]
  exact ⟨_, rfl, rfl, 0, .bareAttribute spelled isName.nonempty isName.valid passes.2
    (Cursor.eat?_eq_none_iff.mpr ends.valueless)⟩

/-- A name with a value is an attribute. -/
theorem IsAttributeValue.isAttribute
    (isValue : IsAttributeValue text value)
    (isName : IsAttributeName name)
    (blank : Blank before)
    (blank' : Blank behind) :
    IsAttribute (name ++ (before ++ ('=' :: (behind ++ text)))) (String.ofList name) value := by
  refine ⟨(visible_of_undelimited isName.nonempty isName.undelimited).append, ?_⟩
  intro c d passes _
  obtain ⟨named, passesName, passes⟩ := Cursor.passes_append.mp passes
  obtain ⟨equals, passesBefore, passes⟩ := Cursor.passes_append.mp passes
  obtain ⟨next, passes⟩ := Cursor.passes_cons.mp passes
  obtain ⟨valued, passesBehind, passesValue⟩ := Cursor.passes_append.mp passes
  have ends : ∀ ch, named.peek? = some ch → (!isNameDelimiter ch) = false := by
    intro ch ahead
    cases before with
    | nil =>
        rw [Cursor.passes_nil] at passesBefore
        subst passesBefore
        rw [next] at ahead
        cases ahead
        rfl
    | cons first before =>
        rw [(Cursor.passes_cons.mp passesBefore).1] at ahead
        cases ahead
        simp [isNameDelimiter, (blank_cons.mp blank).1]
  have spelled : c.textWhile (!isNameDelimiter ·) = name :=
    passesName.textWhile isName.undelimited ends
  have eaten : (c.advanceBy name.length).skipBlanks.eat? '=' = some equals.advance := by
    rw [← passesName.2, passesBefore.skipBlanks blank next rfl]
    exact Cursor.eat?_eq_some_iff.mpr ⟨next, rfl⟩
  obtain ⟨read, same, level, reads⟩ := isValue.reads passesValue
  have reached : equals.advance.skipBlanks = valued := by
    obtain ⟨first, more, rfl, visible⟩ := isValue.visible
    exact passesBehind.skipBlanks blank' (Cursor.passes_cons.mp passesValue).1 visible
  rw [← reached] at reads
  exact ⟨_, rfl, same, level,
    .valuedAttribute spelled isName.nonempty isName.valid eaten reads⟩

/-- No header goes on with an equals sign. -/
theorem Makes.peek?_ne_of_headerTail
    {tail : HeaderTail Expression}
    (makes : Makes (.headerTail tail) c d) :
    c.skipBlanks.peek? ≠ some '=' := by
  intro equals
  obtain ⟨more, ahead⟩ := Cursor.peek?_eq_some_iff.mp equals
  have nameless : c.skipBlanks.textWhile (!isNameDelimiter ·) = [] := by
    rw [Cursor.textWhile, ahead]
    rfl
  obtain ⟨level, reads⟩ := makes
  cases reads with
  | headerEnd closes =>
      rw [(Cursor.eat?_eq_some_iff.mp closes).1] at equals
      cases equals
  | selfClosingEnd closes =>
      obtain ⟨⟨behind, slash⟩, -⟩ := Cursor.eatText?_eq_some_iff.mp closes
      rw [ahead] at slash
      cases slash
  | spreadItem opens _ _ =>
      rw [(Cursor.eat?_eq_some_iff.mp opens).1] at equals
      cases equals
  | attributeItem named _ =>
      cases named with
      | bareAttribute spelled nonempty _ _ _ => exact nonempty (spelled.symm.trans nameless)
      | valuedAttribute spelled nonempty _ _ _ => exact nonempty (spelled.symm.trans nameless)

variable {items : List (AttributeItem Expression)} {ending : HeaderEnd}

/-- The rest of a header ends the attribute in front of it. -/
theorem IsHeaderTail.endsAttribute
    (isTail : IsHeaderTail text items ending)
    (passes : c.Passes text d) :
    EndsAttribute c := by
  constructor
  · intro ch ahead
    obtain ⟨first, more, rfl, delimiter⟩ := isTail.delimited
    rw [(Cursor.passes_cons.mp passes).1] at ahead
    cases ahead
    exact delimiter
  · obtain ⟨read, same, makes⟩ := isTail.reads passes
    exact makes.peek?_ne_of_headerTail

/-- Blank space, and what delimits names, delimit names. -/
theorem delimited_of_blank
    {ch : Char}
    (blank : Blank blanks)
    (delimiter : isNameDelimiter ch = true) :
    ∃ first more, blanks ++ ch :: text = first :: more ∧ isNameDelimiter first = true := by
  cases blanks with
  | nil => exact ⟨ch, text, rfl, delimiter⟩
  | cons first more =>
      refine ⟨first, more ++ ch :: text, rfl, ?_⟩
      simp [isNameDelimiter, (blank_cons.mp blank).1]

/-- A header ends with its bracket. -/
theorem isHeaderTail_content (blank : Blank blanks) :
    IsHeaderTail (blanks ++ ['>']) [] .content := by
  refine ⟨delimited_of_blank blank rfl, ?_⟩
  intro c d passes
  obtain ⟨middle, passesBlanks, passesBracket⟩ := Cursor.passes_append.mp passes
  refine ⟨[], rfl, 0, .headerEnd ?_⟩
  rw [passesBlanks.skipBlanks blank (Cursor.passes_cons.mp passesBracket).1 rfl]
  exact passesBracket.eat?

/-- A header that ends its element has a slash in front of its bracket. -/
theorem isHeaderTail_selfClosing (blank : Blank blanks) :
    IsHeaderTail (blanks ++ "/>".toList) [] .selfClosing := by
  refine ⟨@delimited_of_blank ['>'] _ '/' blank rfl, ?_⟩
  intro c d passes
  obtain ⟨middle, passesBlanks, passesSlash⟩ := Cursor.passes_append.mp passes
  refine ⟨[], rfl, 0, .selfClosingEnd ?_⟩
  rw [passesBlanks.skipBlanks blank (Cursor.passes_cons.mp passesSlash).1 rfl]
  exact passesSlash.eatText?

/-- An attribute stands behind blank space. -/
theorem IsAttribute.isHeaderTail
    {attributeName : String}
    {span : Span}
    (isAttribute : IsAttribute text attributeName value)
    (blank : Blank blanks)
    (nonempty : blanks ≠ [])
    (isTail : IsHeaderTail rest items ending) :
    IsHeaderTail (blanks ++ (text ++ rest)) (.named ⟨attributeName, value, span⟩ :: items)
      ending := by
  constructor
  · cases blanks with
    | nil => contradiction
    | cons first more =>
        refine ⟨first, _, rfl, ?_⟩
        simp [isNameDelimiter, (blank_cons.mp blank).1]
  · intro c d passes
    obtain ⟨first, passesBlanks, passes⟩ := Cursor.passes_append.mp passes
    obtain ⟨middle, passesText, passes⟩ := Cursor.passes_append.mp passes
    obtain ⟨read, rfl, same, makes⟩ := isAttribute.reads passesText (isTail.endsAttribute passes)
    obtain ⟨others, same', makes'⟩ := isTail.reads passes
    obtain ⟨level, reads, reads'⟩ := makes.both makes'
    obtain ⟨ch, more, rfl, visible⟩ := isAttribute.visible
    rw [← passesBlanks.skipBlanks blank (Cursor.passes_cons.mp passesText).1 visible] at reads
    exact ⟨.named read :: others, by simp [same, same'], level, .attributeItem reads reads'⟩

/-- A spread may stand behind blank space. -/
theorem IsSpread.isHeaderTail
    {span : Span}
    (isSpread : IsSpread text expression)
    (blank : Blank blanks)
    (isTail : IsHeaderTail rest items ending) :
    IsHeaderTail (blanks ++ ('\x7b' :: (text ++ rest))) (.spread ⟨expression, span⟩ :: items)
      ending := by
  refine ⟨delimited_of_blank blank rfl, ?_⟩
  intro c d passes
  obtain ⟨first, passesBlanks, passes⟩ := Cursor.passes_append.mp passes
  obtain ⟨opens, passes⟩ := Cursor.passes_cons.mp passes
  obtain ⟨middle, passesText, passes⟩ := Cursor.passes_append.mp passes
  obtain ⟨read, same, makes⟩ := isSpread passesText
  obtain ⟨others, same', makes'⟩ := isTail.reads passes
  obtain ⟨level, reads, reads'⟩ := makes.both makes'
  have opened : c.skipBlanks.eat? '\x7b' = some first.advance := by
    rw [passesBlanks.skipBlanks blank opens rfl]
    exact Cursor.eat?_eq_some_iff.mpr ⟨opens, rfl⟩
  exact ⟨_, by simp [same, same'], level, .spreadItem opened reads reads'⟩

end Headers

/-! ## Content -/

section Content

variable {name : String} {tagName raw : List Char} {left right : Boundary} {value : Option String}
  {child : Child Expression} {children : List (Child Expression)} {element : Element Expression}

/-- The raw text between two neighbours has no mark in it, and has this normal form, if any. -/
structure IsGap (left right : Boundary) (raw : List Char) (value : Option String) : Prop where
  unmarked : ∀ ⦃rest⦄, StartsMark rest → Unmarked raw rest
  normal : normalizeText raw (left == .tag) (right == .tag) = value

/-- The literal text, if any, as children. -/
def textChildren (value : Option String) : List (Child Expression) :=
  (value.map fun text => .text ⟨text, default⟩).toList

/-- The text is an element. -/
def IsElement (text : List Char) (element : Element Expression) : Prop :=
  ∀ ⦃c d : Cursor⦄, c.Passes text d → ∃ read : Element Expression,
    read.withoutSpans = element.withoutSpans ∧ Makes (.element read) c d

/-- The text is a comment or a hole in content. -/
structure IsBraces (text : List Char) (child : Child Expression) : Prop where
  opens : text.head? = some '\x7b'
  reads : ∀ ⦃c d : Cursor⦄, c.Passes text d → ∃ read : Child Expression,
    read.withoutSpans = child.withoutSpans ∧ Makes (.braces read) c d

/-- The text is the content of the element `name` behind `left`, with its closing tag. -/
def IsContent (text : List Char) (name : String) (left : Boundary)
    (children : List (Child Expression)) : Prop :=
  ∀ ⦃c d : Cursor⦄, c.Passes text d → ∃ read : List (Child Expression),
    read.map Child.withoutSpans = children.map Child.withoutSpans ∧
      Makes (.content name left read) c d

/-- Content is told up to spans. -/
theorem IsContent.congr
    {children' : List (Child Expression)}
    (isContent : IsContent text name left children)
    (same : children'.map Child.withoutSpans = children.map Child.withoutSpans) :
    IsContent text name left children' := by
  intro c d passes
  obtain ⟨read, same', makes⟩ := isContent passes
  exact ⟨read, same'.trans same.symm, makes⟩

/-- A gap in front of a mark makes its text. -/
theorem IsGap.next
    {mark : ContentMark}
    (gap : IsGap left right raw value)
    (passes : c.Passes raw d)
    (marked : StartsMark d.rest)
    (next : ContentMark.next d.rest = (0, mark)) :
    ContentMark.next c.rest = (raw.length, mark) ∧
      (literalText c raw.length left right).map Child.withoutSpans =
        (textChildren value).map Child.withoutSpans := by
  constructor
  · rw [passes.1, ContentMark.next_append (gap.unmarked marked), next]
    rfl
  · have ahead : c.rest.take raw.length = raw := by
      rw [passes.1, List.take_left]
    rw [literalText, ahead, gap.normal]
    cases value <;> rfl

/-- Content ends with the closing tag. -/
theorem IsGap.isContent_close
    (gap : IsGap left .tag raw value)
    (isName : tagName = [] ∨ IsTagName tagName)
    (blank : Blank before)
    (blank' : Blank behind) :
    IsContent (raw ++ (['<', '/'] ++ (before ++ (tagName ++ behind ++ ['>']))))
      (String.ofList tagName) left (textChildren value) := by
  intro c d passes
  obtain ⟨middle, passesRaw, passes⟩ := Cursor.passes_append.mp passes
  have marked : StartsMark middle.rest := by
    rw [passes.1]
    exact .inl rfl
  have closing : ContentMark.next middle.rest = (0, .closingTag) := by
    rw [passes.1]
    rfl
  obtain ⟨next, same⟩ := gap.next passesRaw marked closing
  obtain ⟨reached, read⟩ := readClosingTag_eq_ok isName blank blank' passes
  obtain rfl : middle = c.advanceBy raw.length := passesRaw.2
  exact ⟨_, same, 0, .closeContent next read⟩

/-- Where an element can be read, markup starts. -/
theorem startsMarkup_of_element
    (makes : Makes (.element element) c d) :
    startsMarkup c.rest = true := by
  have starts {inside : Cursor} {ch : Char}
      (opened : c.eat? '<' = some inside)
      (ahead : inside.skipBlanks.peek? = some ch)
      (start : (isIdentifierStart ch || ch == '>') = true) : startsMarkup c.rest = true := by
    obtain ⟨bracket, rfl⟩ := Cursor.eat?_eq_some_iff.mp opened
    obtain ⟨more, spelled⟩ := Cursor.peek?_eq_some_iff.mp bracket
    obtain ⟨tail, ahead⟩ := Cursor.peek?_eq_some_iff.mp ahead
    rw [Cursor.rest_skipBlanks, Cursor.rest_advance, spelled, List.drop_one,
      List.tail_cons] at ahead
    simp only [spelled, startsMarkup, ahead]
    exact start
  have header_starts {level : Nat} {header : Header Expression} {inside behind : Cursor}
      (opened : c.eat? '<' = some inside)
      (reads : Reads level (.header header) inside behind) : startsMarkup c.rest = true := by
    cases reads with
    | fragmentHeader closes =>
        exact starts opened (Cursor.eat?_eq_some_iff.mp closes).1 rfl
    | namedHeader named _ =>
        have isName := isTagName_of_readTagName named
        have ahead := rest_of_readTagName named
        have start := isName.start
        unfold startsIdentifier at start
        split at start
        · rename_i ch more spelled
          rw [spelled] at ahead
          exact starts opened (Cursor.peek?_eq_some_iff.mpr ⟨_, ahead⟩) (by simp [start])
        · cases start
  obtain ⟨level, reads⟩ := makes
  cases reads with
  | selfClosingElement opened header _ => exact header_starts opened header
  | closedElement opened header _ _ => exact header_starts opened header

theorem ContentMark.next_of_startsMarkup (starts : startsMarkup rest = true) :
    next rest = (0, .openingTag) := by
  cases rest with
  | nil => cases starts
  | cons ch rest =>
      apply next_of_at?
      have notClosing : ¬(ch = '<' ∧ rest.head? = some '/') := by
        rintro ⟨rfl, slash⟩
        obtain ⟨more, rfl⟩ := List.head?_eq_some_iff.mp slash
        have visible : isBlank '/' = false := rfl
        simp only [startsMarkup] at starts
        rw [List.dropWhile_cons_of_neg (by simp [visible])] at starts
        cases starts
      rw [at?, if_neg notClosing, if_pos starts]

/-- Content goes on behind an element. -/
theorem IsGap.isContent_element
    (gap : IsGap left .tag raw value)
    (isElement : IsElement text element)
    (isContent : IsContent rest name .tag children) :
    IsContent (raw ++ (text ++ rest)) name left
      (textChildren value ++ .element element :: children) := by
  intro c d passes
  obtain ⟨middle, passesRaw, passes⟩ := Cursor.passes_append.mp passes
  obtain ⟨behind, passesText, passes⟩ := Cursor.passes_append.mp passes
  obtain ⟨read, same', makes⟩ := isElement passesText
  have starts := startsMarkup_of_element makes
  have marked : StartsMark middle.rest := by
    unfold startsMarkup at starts
    split at starts
    · rename_i more ahead
      rw [ahead]
      exact .inl rfl
    · cases starts
  obtain ⟨next, same⟩ := gap.next passesRaw marked (ContentMark.next_of_startsMarkup starts)
  obtain ⟨others, same'', makes'⟩ := isContent passes
  obtain ⟨level, reads, reads'⟩ := makes.both makes'
  rw [passesRaw.2] at reads
  exact ⟨_, by simp [same, same', same''], level, .elementChild next reads reads'⟩

/-- Content goes on behind a comment or a hole. -/
theorem IsGap.isContent_braces
    (gap : IsGap left .hole raw value)
    (isBraces : IsBraces text child)
    (isContent : IsContent rest name .hole children) :
    IsContent (raw ++ (text ++ rest)) name left (textChildren value ++ child :: children) := by
  intro c d passes
  obtain ⟨middle, passesRaw, passes⟩ := Cursor.passes_append.mp passes
  obtain ⟨behind, passesText, passes⟩ := Cursor.passes_append.mp passes
  obtain ⟨more, spelled⟩ := List.head?_eq_some_iff.mp isBraces.opens
  have marked : StartsMark middle.rest := by
    rw [passesText.1, spelled]
    exact .inr rfl
  have brace : ContentMark.next middle.rest = (0, .brace) := by
    rw [passesText.1, spelled]
    exact ContentMark.next_brace _
  obtain ⟨next, same⟩ := gap.next passesRaw marked brace
  obtain ⟨read, same', makes⟩ := isBraces.reads passesText
  obtain ⟨others, same'', makes'⟩ := isContent passes
  obtain ⟨level, reads, reads'⟩ := makes.both makes'
  rw [passesRaw.2] at reads
  exact ⟨_, by simp [same, same', same''], level, .bracesChild next reads reads'⟩

/-- A hole in content; an empty one is the null constant. -/
theorem IsHole.isBraces
    {part : Option Expression}
    {span span' : Span}
    (isHole : IsHole text part) :
    IsBraces ('\x7b' :: text) (.hole ⟨part.getD (HostConstants.nullAt span), span'⟩) := by
  refine ⟨rfl, ?_⟩
  intro c d passes
  obtain ⟨opens, passes⟩ := Cursor.passes_cons.mp passes
  obtain ⟨unspread, uncommented⟩ := isHole.plain passes
  obtain ⟨read, same, level, reads⟩ := isHole.reads passes
  have plain : readComment? c = .ok none := by
    unfold readComment?
    split
    · rfl
    · rename_i inside opened
      obtain ⟨-, rfl⟩ := Cursor.eat?_eq_some_iff.mp opened
      simp [uncommented]
  refine ⟨_, ?_, level, .hole plain unspread reads⟩
  rw [Child.withoutSpans_hole, Child.withoutSpans_hole,
    @withoutSpans_getD_nullAt read part (c.spanTo d) span same]

/-- A comment that stands alone in braces. -/
theorem isBraces_comment
    {span : Span}
    (closed : blockCommentTail? text = some text.length)
    (blank : Blank before)
    (blank' : Blank behind) :
    IsBraces ('\x7b' :: (before ++ (('/' :: '*' :: text) ++ (behind ++ ['\x7d']))))
      (.comment ⟨String.ofList ('/' :: '*' :: text), span⟩) := by
  refine ⟨rfl, ?_⟩
  intro c d passes
  have passed : c < d := passes.lt (List.cons_ne_nil _ _)
  obtain ⟨opens, passes⟩ := Cursor.passes_cons.mp passes
  obtain ⟨first, passesBefore, passes⟩ := Cursor.passes_append.mp passes
  obtain ⟨last, passesComment, passes⟩ := Cursor.passes_append.mp passes
  obtain ⟨brace, passesBehind, passesBrace⟩ := Cursor.passes_append.mp passes
  have opened : c.eat? '\x7b' = some c.advance := Cursor.eat?_eq_some_iff.mpr ⟨opens, rfl⟩
  have skipped := passesBefore.skipBlanks blank (Cursor.passes_cons.mp passesComment).1 rfl
  have skipped' := passesBehind.skipBlanks blank' (Cursor.passes_cons.mp passesBrace).1 rfl
  have starts : first.startsWith "/*" = true := by
    rw [Cursor.startsWith, passesComment.1]
    rfl
  have tail : blockCommentTail? (first.rest.drop 2) = some text.length := by
    rw [passesComment.1]
    exact blockCommentTail?_append closed
  have taken : first.rest.take (text.length + 2) = '/' :: '*' :: text := by
    rw [passesComment.1]
    exact @List.take_left _ ('/' :: '*' :: text) last.rest
  have closes : (first.advanceBy (text.length + 2)).skipBlanks.eat? '\x7d' = some d := by
    have reached : last = first.advanceBy (text.length + 2) := passesComment.2
    rw [← reached, skipped']
    exact passesBrace.eat?
  have found : readComment? c =
      .ok (some ⟨⟨String.ofList ('/' :: '*' :: text), c.spanTo d⟩, d, passed⟩) := by
    unfold readComment?
    split
    · rename_i closed'
      rw [opened] at closed'
      cases closed'
    · rename_i inside opened'
      rw [opened] at opened'
      cases opened'
      simp only [skipped, starts, if_true, tail, taken]
      split
      · rename_i open_
        rw [skipped, closes] at open_
        cases open_
      · rename_i stop closes'
        rw [skipped, closes] at closes'
        cases closes'
        rfl
  exact ⟨_, by simp, 0, .comment found⟩

end Content

/-! ## Elements -/

section Elements

variable {tagName tail content : List Char} {items : List (AttributeItem Expression)}
  {children : List (Child Expression)} {element : Element Expression} {span : Span}

/-- What delimits names ends tag names. -/
theorem IsHeaderTail.endsTagName
    {ending : HeaderEnd}
    (isTail : IsHeaderTail tail items ending) :
    EndsTagName (tail ++ rest) := by
  obtain ⟨ch, more, rfl, delimiter⟩ := isTail.delimited
  refine endsTagName_cons.mpr ⟨?_, ?_⟩
  · cases isChar : isMarkupNameChar ch with
    | false => rfl
    | true =>
        rw [isNameDelimiter_eq_false isChar] at delimiter
        cases delimiter
  · rintro rfl
    cases delimiter

/-- A header with a name. -/
theorem IsHeaderTail.makes_header
    {ending : HeaderEnd}
    (isTail : IsHeaderTail tail items ending)
    (isName : IsTagName tagName)
    (blank : Blank blanks)
    (passes : c.Passes (blanks ++ (tagName ++ tail)) d) :
    ∃ read : List (AttributeItem Expression),
      read.map AttributeItem.withoutSpans = items.map AttributeItem.withoutSpans ∧
        Makes (.header ⟨String.ofList tagName, read, ending⟩) c d := by
  obtain ⟨first, passesBlanks, passes⟩ := Cursor.passes_append.mp passes
  obtain ⟨named, passesName, passes⟩ := Cursor.passes_append.mp passes
  obtain ⟨read, same, level, reads⟩ := isTail.reads passes
  have ends : EndsTagName named.rest := by
    rw [passes.1]
    exact isTail.endsTagName
  obtain ⟨reached, found⟩ := readTagName_eq_ok isName passesName ends
  have skipped : c.skipBlanks = first := by
    have start := isName.start
    cases tagName with
    | nil => cases start
    | cons ch more =>
        refine passesBlanks.skipBlanks blank (Cursor.passes_cons.mp passesName).1 ?_
        exact isBlank_eq_false_of_isIdentifierStart start
  subst skipped
  exact ⟨read, same, level, .namedHeader found reads⟩

/-- An element that ends with its opening tag. -/
theorem isElement_selfClosing
    (isName : IsTagName tagName)
    (blank : Blank blanks)
    (isTail : IsHeaderTail tail items .selfClosing) :
    IsElement ('<' :: (blanks ++ (tagName ++ tail)))
      ⟨String.ofList tagName, items, [], none, span⟩ := by
  intro c d passes
  obtain ⟨opens, passes⟩ := Cursor.passes_cons.mp passes
  obtain ⟨read, same, level, reads⟩ := isTail.makes_header isName blank passes
  have opened : c.eat? '<' = some c.advance := Cursor.eat?_eq_some_iff.mpr ⟨opens, rfl⟩
  exact ⟨_, by simp [Element.selfClosing, same], level + 1,
    .selfClosingElement opened reads rfl⟩

/-- An element with content. -/
theorem isElement_closed
    (isName : IsTagName tagName)
    (blank : Blank blanks)
    (isTail : IsHeaderTail tail items .content)
    (isContent : IsContent content (String.ofList tagName) .tag children) :
    IsElement ('<' :: (blanks ++ (tagName ++ (tail ++ content))))
      ⟨String.ofList tagName, items, children, some (String.ofList tagName), span⟩ := by
  intro c d passes
  rw [← List.append_assoc tagName, ← List.append_assoc blanks] at passes
  obtain ⟨opens, passes⟩ := Cursor.passes_cons.mp passes
  obtain ⟨middle, passesHeader, passes⟩ := Cursor.passes_append.mp passes
  obtain ⟨read, same, header⟩ := isTail.makes_header isName blank passesHeader
  obtain ⟨others, same', makes⟩ := isContent passes
  obtain ⟨level, reads, reads'⟩ := header.both makes
  have opened : c.eat? '<' = some c.advance := Cursor.eat?_eq_some_iff.mpr ⟨opens, rfl⟩
  exact ⟨_, by simp [same, same'], level + 1, .closedElement opened reads rfl reads'⟩

/-- A fragment. -/
theorem isElement_fragment
    (blank : Blank blanks)
    (isContent : IsContent content "" .tag children) :
    IsElement ('<' :: (blanks ++ ('>' :: content))) ⟨"", [], children, some "", span⟩ := by
  intro c d passes
  obtain ⟨opens, passes⟩ := Cursor.passes_cons.mp passes
  obtain ⟨first, passesBlanks, passes⟩ := Cursor.passes_append.mp passes
  obtain ⟨closes, passes⟩ := Cursor.passes_cons.mp passes
  obtain ⟨others, same, level, reads⟩ := isContent passes
  have opened : c.eat? '<' = some c.advance := Cursor.eat?_eq_some_iff.mpr ⟨opens, rfl⟩
  have closed : c.advance.skipBlanks.eat? '>' = some first.advance := by
    rw [passesBlanks.skipBlanks blank closes rfl]
    exact Cursor.eat?_eq_some_iff.mpr ⟨closes, rfl⟩
  exact ⟨_, by simp [same], level + 1, .closedElement opened (.fragmentHeader closed) rfl reads⟩

/-- An element is an operand. -/
theorem isOperand_markup
    (isElement : IsElement text element) :
    IsOperand text ⟨.markup element, span⟩ := by
  obtain ⟨more, rfl⟩ : ∃ more, text = '<' :: more := by
    have ahead : (Cursor.mk text Position.origin).rest = text ++ [] := by simp
    obtain ⟨read, -, makes⟩ := isElement (Cursor.passes_advanceBy ahead)
    have starts := startsMarkup_of_element makes
    unfold startsMarkup at starts
    split at starts
    · rename_i more spelled
      exact ⟨more, spelled⟩
    · cases starts
  have visible : Visible ('<' :: more) := ⟨'<', more, rfl, rfl⟩
  refine ⟨visible, ?_⟩
  intro c d stands _
  have passes := stands.passes_skipBlanks visible
  have skipped : skipTrivia c = ⟨.ok (), c.skipBlanks⟩ := by
    apply skipTrivia_eq_skipBlanks
    rw [passes.1]
    rfl
  obtain ⟨read, same, makes⟩ := isElement passes
  have starts := startsMarkup_of_element makes
  obtain ⟨level, reads⟩ := makes
  exact ⟨skipped, ⟨.markup read, c.skipBlanks.spanTo d⟩, by simp [same], level,
    .markup skipped starts reads⟩

end Elements

end EmbeddedMarkup
