import EmbeddedMarkup.Proofs.Markup.Spelling
import EmbeddedMarkup.Proofs.Reading.ExpressionSoundness

/-!
# Writing markup

A tree of markup can be written in many ways: blank space may stand in tags, around holes and
between children, and the spaces of a text may be any blank space.  The relation `Writes` holds
between the parts of trees and all the texts that they can be written as.  In holes there are
variables and elements.  Whatever is written is read as the tree that it was written for.

A text of a tree holds a word.  Blank space alone is never a text, next to what it may stand.
-/

namespace EmbeddedMarkup

/-- A segment of a tag name. -/
structure IsSegment (text : List Char) : Prop where
  start : startsIdentifier text = true
  chars : ∀ ch ∈ text, isMarkupNameChar ch = true

/-- A tag name is made of segments with points between them. -/
inductive IsDotted : List Char → Prop
  | segment {text : List Char} :
      IsSegment text → IsDotted text
  | point {text rest : List Char} :
      IsSegment text → IsDotted rest → IsDotted (text ++ '.' :: rest)

/-- The raw text between two neighbours makes these children, which are one text or none. -/
inductive WritesGap (left right : Boundary) : List (Child Expression) → List Char → Prop
  | blank {raw : List Char} :
      Blank raw →
      WritesGap left right [] raw
  | text {value before raw behind : List Char} {span : Span} :
      IsNormal left right value →
      (∀ ch ∈ value, ch ≠ '<' ∧ ch ≠ '\x7b') →
      LaysOut value raw →
      Padding left before →
      Padding right behind →
      WritesGap left right [.text ⟨String.ofList value, span⟩] (before ++ raw ++ behind)

/-- A part of a tree of markup. -/
inductive MarkupPart where
  /-- What stands in a hole that is not empty. -/
  | host (expression : Expression)
  /-- A hole behind its opening brace. -/
  | hole (part : Option Expression)
  | value (expression : Expression)
  | attribute (name : String) (value : Expression)
  /-- The entries of a header behind the name of the tag, and how the header ends. -/
  | header (items : List (AttributeItem Expression)) (ending : HeaderEnd)
  /-- The content of the element `name` behind `left`, and its closing tag. -/
  | content (name : List Char) (left : Boundary) (children : List (Child Expression))
  | element (element : Element Expression)

/--
The text is written for a part of a tree: for what stands in a hole, for a hole, for what stands in
a header, for the content of an element with its closing tag, or for an element.
-/
inductive Writes : MarkupPart → List Char → Prop
  | variable {name : List Char} {span : Span} :
      IsIdentifier name →
      Writes (.host ⟨.variable (String.ofList name), span⟩) ('$' :: name)
  | markup {element : Element Expression} {text : List Char} {span : Span} :
      Writes (.element element) text →
      Writes (.host ⟨.markup element, span⟩) text
  | emptyHole {blanks : List Char} :
      Blank blanks →
      Writes (.hole none) (blanks ++ ['\x7d'])
  | filledHole {expression : Expression} {before text behind : List Char} :
      Blank before →
      Writes (.host expression) text →
      Blank behind →
      Writes (.hole (some expression)) (before ++ (text ++ (behind ++ ['\x7d'])))
  | quotedValue {quote : Char} {text : List Char} {span : Span} :
      quote = '"' ∨ quote = '\'' →
      quote ∉ text →
      Writes (.value ⟨.string (String.ofList text), span⟩) (quote :: (text ++ [quote]))
  | holeValue {part : Option Expression} {text : List Char} {span : Span} :
      Writes (.hole part) text →
      Writes (.value (part.getD (HostConstants.nullAt span))) ('\x7b' :: text)
  | bareAttribute {name : List Char} {span : Span} :
      IsAttributeName name →
      Writes (.attribute (String.ofList name) (HostConstants.trueAt span)) name
  | valuedAttribute {name before behind text : List Char} {value : Expression} :
      IsAttributeName name →
      Blank before →
      Blank behind →
      Writes (.value value) text →
      Writes (.attribute (String.ofList name) value) (name ++ (before ++ ('=' :: (behind ++ text))))
  | headerEnd {blanks : List Char} :
      Blank blanks →
      Writes (.header [] .content) (blanks ++ ['>'])
  | selfClosingEnd {blanks : List Char} :
      Blank blanks →
      Writes (.header [] .selfClosing) (blanks ++ "/>".toList)
  | attributeItem {name : String} {value : Expression} {span : Span}
      {items : List (AttributeItem Expression)} {ending : HeaderEnd}
      {blanks text rest : List Char} :
      Blank blanks →
      blanks ≠ [] →
      Writes (.attribute name value) text →
      Writes (.header items ending) rest →
      Writes (.header (.named ⟨name, value, span⟩ :: items) ending) (blanks ++ (text ++ rest))
  | spreadItem {expression : Expression} {span : Span} {items : List (AttributeItem Expression)}
      {ending : HeaderEnd} {blanks inner before text behind rest : List Char} :
      Blank blanks →
      Blank inner →
      Blank before →
      Writes (.host expression) text →
      Blank behind →
      Writes (.header items ending) rest →
      Writes (.header (.spread ⟨expression, span⟩ :: items) ending)
        (blanks ++ ('\x7b' ::
          (inner ++ ("...".toList ++ (before ++ (text ++ (behind ++ ['\x7d'])))) ++ rest)))
  | close {name before behind raw : List Char} {left : Boundary}
      {texts : List (Child Expression)} :
      WritesGap left .tag texts raw →
      Blank before →
      Blank behind →
      Writes (.content name left texts)
        (raw ++ (['<', '/'] ++ (before ++ (name ++ behind ++ ['>']))))
  | child {name raw text rest : List Char} {left : Boundary} {element : Element Expression}
      {texts children : List (Child Expression)} :
      WritesGap left .tag texts raw →
      Writes (.element element) text →
      Writes (.content name .tag children) rest →
      Writes (.content name left (texts ++ .element element :: children)) (raw ++ (text ++ rest))
  | hole {name raw text rest : List Char} {left : Boundary} {part : Option Expression}
      {span span' : Span} {texts children : List (Child Expression)} :
      WritesGap left .hole texts raw →
      Writes (.hole part) text →
      Writes (.content name .hole children) rest →
      Writes (.content name left
        (texts ++ .hole ⟨part.getD (HostConstants.nullAt span), span'⟩ :: children))
        (raw ++ ('\x7b' :: text ++ rest))
  | comment {name raw before body behind rest : List Char} {left : Boundary} {span : Span}
      {texts children : List (Child Expression)} :
      WritesGap left .hole texts raw →
      ¬"*/".toList <:+: body →
      Blank before →
      Blank behind →
      Writes (.content name .hole children) rest →
      Writes (.content name left
        (texts ++ .comment ⟨String.ofList ("/*".toList ++ body ++ "*/".toList), span⟩ :: children))
        (raw ++ ('\x7b' :: (before ++ ("/*".toList ++ body ++ "*/".toList ++
          (behind ++ ['\x7d']))) ++ rest))
  | selfClosing {name blanks rest : List Char} {items : List (AttributeItem Expression)}
      {span : Span} :
      Blank blanks →
      IsDotted name →
      Writes (.header items .selfClosing) rest →
      Writes (.element ⟨String.ofList name, items, [], none, span⟩)
        ('<' :: (blanks ++ (name ++ rest)))
  | closed {name blanks header content : List Char} {items : List (AttributeItem Expression)}
      {children : List (Child Expression)} {span : Span} :
      Blank blanks →
      IsDotted name →
      Writes (.header items .content) header →
      Writes (.content name .tag children) content →
      Writes (.element
        ⟨String.ofList name, items, children, some (String.ofList name), span⟩)
        ('<' :: (blanks ++ (name ++ (header ++ content))))
  | fragment {blanks content : List Char} {children : List (Child Expression)} {span : Span} :
      Blank blanks →
      Writes (.content [] .tag children) content →
      Writes (.element ⟨"", [], children, some "", span⟩) ('<' :: (blanks ++ ('>' :: content)))

theorem continuesTagName_append
    {text rest : List Char}
    (chars : ∀ ch ∈ text, isMarkupNameChar ch = true)
    (continues : ContinuesTagName rest) :
    ContinuesTagName (text ++ rest) := by
  induction text with
  | nil => exact continues
  | cons ch text ih =>
      obtain ⟨here, behind⟩ := List.forall_mem_cons.mp chars
      exact .char here (ih behind)

/-- Segments with points between them are a tag name. -/
theorem IsDotted.isTagName {name : List Char} (dotted : IsDotted name) : IsTagName name := by
  induction dotted with
  | @segment text segment =>
      refine ⟨segment.start, ?_⟩
      simpa using continuesTagName_append segment.chars .nil
  | @point text rest segment _ ih =>
      refine ⟨startsIdentifier_append segment.start, continuesTagName_append segment.chars ?_⟩
      obtain ⟨start, continues⟩ := ih
      cases continues with
      | nil => cases start
      | char _ behind => exact .point start behind
      | point _ _ => cases start

/-- What lies in the raw text is blank space, or stands in the text. -/
theorem mem_of_laysOut
    {text raw : List Char}
    (lays : LaysOut text raw) :
    ∀ ch ∈ raw, isBlank ch = true ∨ ch ∈ text := by
  induction lays with
  | nil => simp
  | visible _ _ ih =>
      intro ch member
      rcases List.mem_cons.mp member with rfl | member
      · exact .inr List.mem_cons_self
      · exact (ih ch member).imp_right (List.mem_cons_of_mem _)
  | space _ blank _ ih =>
      intro ch member
      rcases List.mem_append.mp member with member | member
      · exact .inl (blank ch member)
      · exact (ih ch member).imp_right (List.mem_cons_of_mem _)

/-- Blank space has no marks. -/
theorem plain_of_isBlank {ch : Char} (blank : isBlank ch = true) : ch ≠ '<' ∧ ch ≠ '\x7b' := by
  constructor <;> rintro rfl <;> cases blank

/-- What is written between two neighbours is a gap with the text it was written for. -/
theorem WritesGap.isGap
    {left right : Boundary}
    {texts : List (Child Expression)}
    {raw : List Char}
    (writes : WritesGap left right texts raw) :
    ∃ value, IsGap left right raw value ∧
      texts.map Child.withoutSpans = (textChildren value).map Child.withoutSpans := by
  cases writes with
  | blank blank =>
      refine ⟨none,
        ⟨fun _ _ => unmarked_of_plain fun ch member => plain_of_isBlank (blank ch member), ?_⟩, rfl⟩
      exact normalizeText_eq_none_iff.mpr (List.all_eq_true.mpr blank)
  | @text value before raw behind span normal plain lays padsLeft padsRight =>
      refine ⟨some (String.ofList value), ⟨fun _ _ => unmarked_of_plain ?_,
        normalizeText_of_laysOut normal lays padsLeft padsRight⟩, by simp [textChildren]⟩
      intro ch member
      rcases List.mem_append.mp member with member | member
      · rcases List.mem_append.mp member with member | member
        · exact plain_of_isBlank (padsLeft.1 ch member)
        · exact (mem_of_laysOut lays ch member).elim plain_of_isBlank (plain ch)
      · exact plain_of_isBlank (padsRight.1 ch member)

/-- A comment ends with the first end of a comment. -/
theorem blockCommentTail?_body
    {body : List Char}
    (open_ : ¬"*/".toList <:+: body) :
    blockCommentTail? (body ++ "*/".toList) = some (body ++ "*/".toList).length := by
  rw [List.length_append]
  exact blockCommentTail?_eq_some_iff.mpr ⟨body, [], open_, rfl, rfl⟩

/-- The text is read as the part, wherever it stands. -/
def IsReadAs (text : List Char) : MarkupPart → Prop
  | .host expression => IsOperand text expression
  | .hole part => IsHole text part
  | .value expression => IsAttributeValue text expression
  | .attribute name value => IsAttribute text name value
  | .header items ending => IsHeaderTail text items ending
  | .content name left children =>
      name = [] ∨ IsTagName name → IsContent text (String.ofList name) left children
  | .element element => IsElement text element

/-- What is written for a part of a tree is read as that part. -/
theorem Writes.isReadAs
    {part : MarkupPart}
    {text : List Char}
    (writes : Writes part text) :
    IsReadAs text part := by
  have leads {text : List Char} {expression : Expression} (operand : IsOperand text expression) :
      Leads 0 0 text expression := operand.leads.mono (Nat.zero_le _)
  induction writes with
  | «variable» name => exact (spells_variable name).isOperand rfl
  | markup _ element => exact isOperand_markup element
  | emptyHole blank => exact isHole_empty blank
  | filledHole blank _ blank' host => exact (leads host).isHole blank blank'
  | quotedValue isQuote unquoted => exact isAttributeValue_quoted isQuote unquoted
  | holeValue _ hole => exact hole.isAttributeValue
  | bareAttribute name => exact name.isAttribute
  | valuedAttribute name blank blank' _ value => exact value.isAttribute name blank blank'
  | headerEnd blank => exact isHeaderTail_content blank
  | selfClosingEnd blank => exact isHeaderTail_selfClosing blank
  | attributeItem blank nonempty _ _ named tail => exact named.isHeaderTail blank nonempty tail
  | spreadItem blank inner before _ behind _ host tail =>
      exact ((leads host).isSpread inner before behind).isHeaderTail blank tail
  | close gap blank blank' =>
      intro isName
      obtain ⟨value, isGap, same⟩ := gap.isGap
      exact (isGap.isContent_close isName blank blank').congr same
  | child gap _ _ element content =>
      intro isName
      obtain ⟨value, isGap, same⟩ := gap.isGap
      exact (isGap.isContent_element element (content isName)).congr (by simp [same])
  | @hole _ _ _ _ _ _ span span' _ _ gap _ _ hole content =>
      intro isName
      obtain ⟨value, isGap, same⟩ := gap.isGap
      have braces := @IsHole.isBraces _ _ span span' hole
      exact (isGap.isContent_braces braces (content isName)).congr (by simp [same])
  | @comment _ _ _ _ _ _ _ span _ _ gap open_ blank blank' _ content =>
      intro isName
      obtain ⟨value, isGap, same⟩ := gap.isGap
      have braces := @isBraces_comment _ _ _ span (blockCommentTail?_body open_) blank blank'
      exact (isGap.isContent_braces braces (content isName)).congr (by simp [same])
  | selfClosing blank name _ header => exact isElement_selfClosing name.isTagName blank header
  | closed blank name _ _ header content =>
      exact isElement_closed name.isTagName blank header (content (.inr name.isTagName))
  | fragment blank _ content => exact isElement_fragment blank (content (.inl rfl))

/-- An element with an attribute, a text, a hole and an element in it. -/
def greeting : Element Expression :=
  ⟨"a", [.named ⟨"x", ⟨.string "1", default⟩, default⟩],
    [.text ⟨"hi ", default⟩, .hole ⟨⟨.variable "y", default⟩, default⟩,
      .element ⟨"b", [], [], none, default⟩], some "a", default⟩

theorem writes_greeting :
    Writes (.element greeting) "<a x = '1'> hi {$y}<b /></a >".toList := by
  have space : Blank [' '] := blank_cons.mpr ⟨rfl, blank_nil⟩
  have name (ch : Char) (start : isIdentifierStart ch = true) : IsDotted [ch] := by
    refine .segment ⟨start, ?_⟩
    simp [isMarkupNameChar, isIdentifierChar_of_isIdentifierStart start]
  have inner := @Writes.selfClosing ['b'] [] _ _ default blank_nil (name 'b' rfl)
    (@Writes.selfClosingEnd [' '] space)
  have closing := @Writes.close ['a'] [] [' '] [] .tag [] (.blank blank_nil) blank_nil space
  have child := @Writes.child ['a'] [] _ _ .hole _ [] [] (.blank blank_nil) inner closing
  have hole := @Writes.filledHole _ [] _ [] blank_nil
    (@Writes.variable ['y'] default ⟨rfl, by decide⟩) blank_nil
  have normal : IsNormal .tag .hole ['h', 'i', ' '] :=
    ⟨fun blank => absurd (blank 'h' List.mem_cons_self) (by decide), by decide, by decide,
      fun _ => by decide, by decide⟩
  have gap : WritesGap .tag .hole _ _ :=
    @WritesGap.text .tag .hole ['h', 'i', ' '] [' '] _ [] default normal (by decide)
      (laysOut_self (by decide)) ⟨space, by decide⟩ ⟨blank_nil, fun _ => rfl⟩
  have content := @Writes.hole ['a'] _ _ _ .tag _ default default _ _ gap hole child
  have quoted := @Writes.quotedValue '\'' ['1'] default (.inr rfl) (by decide)
  have valued := @Writes.valuedAttribute ['x'] [' '] [' '] _ _
    ⟨List.cons_ne_nil _ _, by decide⟩ space space quoted
  have header := @Writes.attributeItem _ _ default _ _ [' '] _ _ space (List.cons_ne_nil _ _)
    valued (@Writes.headerEnd [] blank_nil)
  exact @Writes.closed ['a'] [] _ _ _ _ default blank_nil (name 'a' rfl) header content

/-- Every text that an element can be written as is read as that element, up to spans. -/
theorem readElement_of_writes
    {element : Element Expression}
    {source rest : List Char}
    {start : Cursor}
    (writes : Writes (.element element) source)
    (ahead : start.rest = source ++ rest) :
    ∃ read least, read.withoutSpans = element.withoutSpans ∧
      ∀ budget, least ≤ budget →
        (readElement hostDelegate (.initial budget) start).Yields read (.initial budget)
          (start.advanceBy source.length) := by
  have isElement : IsElement source element := writes.isReadAs
  obtain ⟨read, same, least, reads⟩ := isElement (Cursor.passes_advanceBy ahead)
  refine ⟨read, least, same, ?_⟩
  intro budget fits
  exact reads.yields_readElement ((ModeStack.admits_initial budget).mono fits)

theorem readElement_greeting :
    Writes (.element greeting) "<a x = '1'> hi {$y}<b /></a >".toList ∧
      ∃ read least, read.withoutSpans = greeting.withoutSpans ∧
        ∀ budget, least ≤ budget →
          (readElement hostDelegate (.initial budget)
            (.ofText "<a x = '1'> hi {$y}<b /></a >")).Yields read (.initial budget)
            ((Cursor.ofText "<a x = '1'> hi {$y}<b /></a >").advanceBy
              "<a x = '1'> hi {$y}<b /></a >".toList.length) :=
  ⟨writes_greeting, readElement_of_writes writes_greeting (List.append_nil _).symm⟩

/-! ## What is never read -/

section Never

variable {level : Nat} {phrase : Phrase} {c d : Cursor}

theorem exists_text_of_mem_literalText
    {length : Nat}
    {left right : Boundary}
    {child : Child Expression}
    (member : child ∈ literalText c length left right) :
    ∃ text, child = .text text := by
  unfold literalText at member
  split at member
  · exact ⟨_, List.mem_singleton.mp member⟩
  · cases member

theorem not_blank_of_mem_literalText
    {length : Nat}
    {left right : Boundary}
    {text : LiteralText}
    (member : Child.text text ∈ (literalText c length left right : List (Child Expression))) :
    ¬Blank text.value.toList := by
  unfold literalText at member
  split at member
  · rename_i value normalized
    obtain rfl := Child.text.inj (List.mem_singleton.mp member)
    exact (isNormal_of_normalizeText normalized).visible
  · cases member

/-- What stands in content is a text that holds a word, an element, or what braces make. -/
theorem child_of_reads
    (reads : Reads level phrase c d) :
    ∀ name left children, phrase = .content name left children → ∀ child ∈ children,
      (∃ text, child = .text text ∧ ¬Blank text.value.toList) ∨
        (∃ element, child = .element element) ∨
        ∃ first behind, Reads level (.braces child) first behind := by
  have text {start : Cursor} {length : Nat} {left right : Boundary} {child : Child Expression}
      (member : child ∈ literalText start length left right) :
      ∃ text, child = .text text ∧ ¬Blank text.value.toList := by
    obtain ⟨text, rfl⟩ := exists_text_of_mem_literalText member
    exact ⟨text, rfl, not_blank_of_mem_literalText member⟩
  induction reads with
  | closeContent =>
      intro name left children same child member
      cases same
      exact .inl (text member)
  | elementChild _ _ _ _ ih =>
      intro name left children same child member
      cases same
      rcases List.mem_append.mp member with member | member
      · exact .inl (text member)
      · rcases List.mem_cons.mp member with rfl | member
        · exact .inr (.inl ⟨_, rfl⟩)
        · exact ih _ _ _ rfl child member
  | bracesChild _ braces _ _ ih =>
      intro name left children same child member
      cases same
      rcases List.mem_append.mp member with member | member
      · exact .inl (text member)
      · rcases List.mem_cons.mp member with rfl | member
        · exact .inr (.inr ⟨_, _, braces⟩)
        · exact ih _ _ _ rfl child member
  | _ =>
      intro name left children same
      cases same

/-- Every attribute in a header has a name that is one. -/
theorem isAttributeName_of_reads
    (reads : Reads level phrase c d) :
    ∀ tail, phrase = .headerTail tail →
      ∀ item, AttributeItem.named item ∈ tail.1 → IsAttributeName item.name.toList := by
  induction reads with
  | spreadItem _ _ _ _ ih =>
      intro tail same item member
      cases same
      rcases List.mem_cons.mp member with spread | member
      · cases spread
      · exact ih _ rfl item member
  | attributeItem named _ _ ih =>
      intro tail same item member
      cases same
      rcases List.mem_cons.mp member with first | member
      · cases first
        cases named with
        | bareAttribute _ nonempty valid _ _ => simpa using ⟨nonempty, valid⟩
        | valuedAttribute _ nonempty valid _ _ => simpa using ⟨nonempty, valid⟩
      · exact ih _ rfl item member
  | _ =>
      intro tail same
      cases same <;> simp

/-- Every named entry of a header has a name. -/
theorem isAttributeName_of_reads_header
    {header : Header Expression}
    {item : Attribute Expression}
    (reads : Reads level (.header header) c d)
    (member : AttributeItem.named item ∈ header.attributes) :
    IsAttributeName item.name.toList := by
  cases reads with
  | fragmentHeader => cases member
  | namedHeader _ tail => exact isAttributeName_of_reads tail _ rfl item member

/-- The texts of an element that is read hold words, and its attributes have names. -/
theorem words_of_reads
    {element : Element Expression}
    (reads : Reads level (.element element) c d) :
    (∀ text, Child.text text ∈ element.children → ¬Blank text.value.toList) ∧
      ∀ item, AttributeItem.named item ∈ element.attributes → item.name ≠ "" := by
  have named {level : Nat} {header : Header Expression} {start stop : Cursor}
      (reads : Reads level (.header header) start stop) :
      ∀ item, AttributeItem.named item ∈ header.attributes → item.name ≠ "" := by
    intro item member empty
    refine (isAttributeName_of_reads_header reads member).nonempty ?_
    rw [empty]
    rfl
  cases reads with
  | selfClosingElement _ header _ => exact ⟨by simp [Element.selfClosing], named header⟩
  | closedElement _ header _ content =>
      refine ⟨fun text member => ?_, named header⟩
      rcases child_of_reads content _ _ _ rfl _ member with ⟨_, same, word⟩ | ⟨_, element⟩ |
        ⟨_, _, braces⟩
      · cases same
        exact word
      · cases element
      · cases braces

/-- A hole with the variable of this name. -/
def variableHole (name : String) : Child Expression :=
  .hole ⟨⟨.variable name, default⟩, default⟩

/-- Two holes with a text between them that is a single space. -/
def spacedHoles : Element Expression :=
  ⟨"a", [], [variableHole "x", .text ⟨" ", default⟩, variableHole "y"], some "a", default⟩

/-- An attribute whose name is empty. -/
def namelessAttribute : Element Expression :=
  ⟨"a", [.named ⟨"", ⟨.string "x", default⟩, default⟩], [], none, default⟩

/--
Blank space is no text, not even between holes, and no attribute is without a name, though no rule
for the characters of names is broken by the empty name.
-/
theorem not_reads_blank_text_and_empty_name :
    (¬∃ budget read modes stop,
      (readElement hostDelegate (.initial budget) (.ofText "<a>\x7b$x\x7d \x7b$y\x7d</a>")).Yields
        read modes stop ∧ read.withoutSpans = spacedHoles.withoutSpans) ∧
    attributeNameFault? [] = none ∧
    ¬∃ budget read modes stop,
      (readElement hostDelegate (.initial budget) (.ofText "<a ='x'/>")).Yields read modes stop ∧
        read.withoutSpans = namelessAttribute.withoutSpans := by
  refine ⟨?_, rfl, ?_⟩
  · rintro ⟨budget, read, modes, stop, yields, same⟩
    obtain ⟨-, reads⟩ := reads_of_readElement (List.cons_ne_nil _ _) yields
    obtain ⟨words, -⟩ := words_of_reads reads
    have children := congrArg Element.children same
    rw [Element.children_withoutSpans, Element.children_withoutSpans] at children
    have member : Child.text ⟨" ", default⟩ ∈ read.children.map Child.withoutSpans := by
      rw [children]
      simp [spacedHoles, variableHole]
    obtain ⟨child, member, equal⟩ := List.mem_map.mp member
    cases child with
    | text text =>
        rw [Child.withoutSpans_text, Child.text.injEq, LiteralText.mk.injEq] at equal
        refine words text member ?_
        rw [equal.1]
        exact blank_cons.mpr ⟨rfl, blank_nil⟩
    | element child => simp at equal
    | hole child => simp at equal
    | comment child => simp at equal
  · rintro ⟨budget, read, modes, stop, yields, same⟩
    obtain ⟨-, reads⟩ := reads_of_readElement (List.cons_ne_nil _ _) yields
    obtain ⟨-, named⟩ := words_of_reads reads
    have items := congrArg Element.attributes same
    rw [Element.attributes_withoutSpans, Element.attributes_withoutSpans] at items
    have member : AttributeItem.named ⟨"", ⟨.string "x", default⟩, default⟩ ∈
        read.attributes.map AttributeItem.withoutSpans := by
      rw [items]
      simp [namelessAttribute]
    obtain ⟨item, member, equal⟩ := List.mem_map.mp member
    cases item with
    | named item =>
        rw [AttributeItem.withoutSpans_named, AttributeItem.named.injEq,
          Attribute.mk.injEq] at equal
        exact named item member equal.1
    | spread item => cases equal

end Never

end EmbeddedMarkup
