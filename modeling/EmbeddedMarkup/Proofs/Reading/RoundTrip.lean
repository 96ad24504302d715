import EmbeddedMarkup.Proofs.Reading.ExpressionSoundness
import EmbeddedMarkup.Proofs.Reading.Printing

/-!
# Printing and reading again

What was read is printed as a text that is read as the same expression, but for names on which
something is accessed: in their parentheses they become constants.  By induction over the rules of
reading, every phrase that is read is printed so that it is read again.
-/

namespace EmbeddedMarkup

variable {c d : Cursor} {spelling : NumberSpelling}

section Markup

/-- Literal text that was read is printed as it stands, and is a gap there. -/
theorem exists_isGap
    {length : Nat}
    {mark : ContentMark}
    (spelling : NumberSpelling)
    (left right : Boundary)
    (next : ContentMark.next c.rest = (length, mark))
    (more : mark ≠ .endOfInput) :
    ∃ raw value, IsGap left right raw value ∧
      ((literalText c length left right).map (·.map (Expression.printed spelling))).flatMap
        Child.printed = raw ∧
      ((literalText c length left right).map (·.map Expression.resolved)).map Child.withoutSpans =
        (textChildren value).map Child.withoutSpans := by
  obtain ⟨-, unmarked, marked⟩ := ContentMark.unmarked_of_next next
  have starts := startsMark_of_next marked more
  unfold literalText
  split
  · rename_i value normalized
    refine ⟨value.toList, some value, ⟨fun rest starts' => ?_, ?_⟩, ?_, ?_⟩
    · unfold normalizeText at normalized
      split at normalized <;> cases normalized
      rw [String.toList_ofList]
      exact unmarked.collapseBlanks starts starts'
    · have normal := normalizeText_of_isNormal (isNormal_of_normalizeText normalized)
      rwa [String.ofList_toList] at normal
    · simp [Child.map, Child.printed]
    · simp [textChildren, Child.map]
  · exact ⟨[], none, ⟨fun _ _ => trivial, by cases left <;> cases right <;> rfl⟩, rfl, rfl⟩

/-- The rest of a comment is told by its characters alone. -/
theorem blockCommentTail?_take
    {text : List Char}
    {length : Nat}
    (closed : blockCommentTail? text = some length) :
    blockCommentTail? (text.take length) = some (text.take length).length := by
  fun_induction blockCommentTail? text generalizing length with
  | case1 => cases closed
  | case2 =>
      cases closed
      rfl
  | case3 ch text open_ ih =>
      obtain ⟨inner, found, rfl⟩ := Option.map_eq_some_iff.mp closed
      rw [List.take_succ_cons, blockCommentTail?_cons, ih found]
      · rfl
      · rintro ⟨rfl, slash⟩
        cases text with
        | nil => simp at slash
        | cons next text =>
            cases inner with
            | zero => cases slash
            | succ inner =>
                cases slash
                exact open_ _ rfl rfl

/-- A comment is written as it stands. -/
theorem isBraces_of_readComment?
    {comment : Comment}
    {reached : c < d}
    (found : readComment? c = .ok (some ⟨comment, d, reached⟩)) :
    IsBraces ('\x7b' :: (comment.text.toList ++ ['\x7d'])) (.comment comment) := by
  unfold readComment? at found
  split at found
  · cases found
  · rename_i inside _
    dsimp only at found
    split at found
    · rename_i starts
      rw [Cursor.startsWith, List.isPrefixOf_iff_prefix] at starts
      obtain ⟨more, ahead⟩ := starts
      have spelled : inside.skipBlanks.rest = '/' :: '*' :: more := ahead.symm
      split at found
      · cases found
      · rename_i tail closed
        rw [spelled] at closed
        split at found
        · cases found
        · cases found
          rw [spelled]
          have taken := blockCommentTail?_take closed
          simpa using @isBraces_comment _ [] [] _ taken blank_nil blank_nil
    · cases found

/-- What is printed for children and a closing tag is the content of an element. -/
abbrev PrintsContent (spelling : NumberSpelling) (name : String) (left : Boundary)
    (children : List (Child Expression)) : Prop :=
  IsContent
    ((children.map (·.map (Expression.printed spelling))).flatMap Child.printed ++
      printedClosing name)
    name left (children.map (·.map Expression.resolved))

/-- What is printed for a phrase between two cursors is read as the phrase, with resolved names. -/
def Phrase.Prints (spelling : NumberSpelling) (c d : Cursor) : Phrase → Prop
  | .expression _ whole => whole.Prints spelling
  | .continuation _ _ left whole => left.Prints spelling → whole.Prints spelling
  | .connection _ left form =>
      left.Prints spelling → ∀ span, Expression.Prints spelling ⟨form, span⟩
  | .optional _ part => ∀ expression, part = some expression → expression.Prints spelling
  | .operand whole => whole.Prints spelling
  | .primary base => base.PrintsBase spelling d
  | .parameters list => ∀ parameter ∈ list, IsIdentifier parameter.name.toList
  | .arrowFunction form => ∀ span, Expression.Prints spelling ⟨form, span⟩
  | .entry keyed item =>
      IsEntry keyed (item.map (Expression.printed spelling)).printed
        (item.map Expression.resolved) ∧
      (keyed = false → IsArgument (item.toArgument.map (Expression.printed spelling)).printed
        (item.toArgument.map Expression.resolved))
  | .entries _ keyed items => ∀ item ∈ items,
      IsEntry keyed (item.map (Expression.printed spelling)).printed
        (item.map Expression.resolved) ∧
      (keyed = false → IsArgument (item.toArgument.map (Expression.printed spelling)).printed
        (item.toArgument.map Expression.resolved))
  | .member name arguments =>
      IsMember (memberText name (Expression.printedArguments spelling arguments)) name
        (Expression.resolvedArguments arguments)
  | .access base form =>
      base.PrintsBase spelling c → ∀ span, Expression.Prints spelling ⟨form, span⟩
  | .accesses _ base whole => base.PrintsBase spelling c → whole.Prints spelling
  | .element whole =>
      IsElement (whole.map (Expression.printed spelling)).printed (whole.map Expression.resolved)
  | .header tag =>
      (tag.name = "" ∧ tag.attributes = [] ∧ tag.ending = .content) ∨
      (IsTagName tag.name.toList ∧
        IsHeaderTail
          (printedHeader (tag.attributes.map (·.map (Expression.printed spelling))) tag.ending)
          (tag.attributes.map (·.map Expression.resolved)) tag.ending)
  | .headerTail tail =>
      IsHeaderTail (printedHeader (tail.1.map (·.map (Expression.printed spelling))) tail.2)
        (tail.1.map (·.map Expression.resolved)) tail.2
  | .attribute item => IsAttributeName item.name.toList ∧ item.value.Prints spelling
  | .attributeValue value => value.Prints spelling
  | .hole part => ∀ expression, part = some expression → expression.Prints spelling
  | .spread inner => inner.Prints spelling
  | .braces child =>
      IsBraces (child.map (Expression.printed spelling)).printed (child.map Expression.resolved)
  | .content name left children =>
      name = "" ∨ IsTagName name.toList → PrintsContent spelling name left children

end Markup

/-! ## Markup -/

section Elements

variable {element : Element Expression} {name : String} {left : Boundary}
  {children : List (Child Expression)} {items : List (AttributeItem Expression)}
  {ending : HeaderEnd} {item : Attribute Expression} {operand : Expression} {span : Span}

theorem prints_header_end (ending : HeaderEnd) :
    IsHeaderTail (printedHeader [] ending) [] ending := by
  cases ending with
  | content => exact isHeaderTail_content blank_nil
  | selfClosing => exact isHeaderTail_selfClosing blank_nil

/-- An attribute is printed with its value in braces. -/
theorem prints_named
    (isName : IsAttributeName item.name.toList)
    (prints : item.value.Prints spelling)
    (tail : IsHeaderTail (printedHeader (items.map (·.map (Expression.printed spelling))) ending)
      (items.map (·.map Expression.resolved)) ending) :
    IsHeaderTail
      (printedHeader ((AttributeItem.named item :: items).map
        (·.map (Expression.printed spelling))) ending)
      ((AttributeItem.named item :: items).map (·.map Expression.resolved)) ending := by
  have value := @IsHole.isAttributeValue _ _ default (prints.leads.isHole blank_nil blank_nil)
  have named := value.isAttribute isName blank_nil blank_nil
  rw [String.ofList_toList] at named
  simpa [printedHeader, AttributeItem.printed, Printed.braced, Expression.print] using
    @IsAttribute.isHeaderTail _ _ _ _ _ _ _ item.span named blank_space (List.cons_ne_nil _ _) tail

/-- A spread is printed in braces. -/
theorem prints_spread
    (prints : operand.Prints spelling)
    (tail : IsHeaderTail (printedHeader (items.map (·.map (Expression.printed spelling))) ending)
      (items.map (·.map Expression.resolved)) ending) :
    IsHeaderTail
      (printedHeader ((AttributeItem.spread ⟨operand, span⟩ :: items).map
        (·.map (Expression.printed spelling))) ending)
      ((AttributeItem.spread ⟨operand, span⟩ :: items).map (·.map Expression.resolved))
      ending := by
  have spread := prints.leads.isSpread blank_nil blank_nil blank_nil
  simpa [printedHeader, AttributeItem.printed, Expression.print] using
    @IsSpread.isHeaderTail _ _ _ _ _ _ span spread blank_space tail

section Content

variable {length : Nat} {child : Child Expression}

theorem prints_close
    (next : ContentMark.next c.rest = (length, .closingTag))
    (isName : name = "" ∨ IsTagName name.toList) :
    PrintsContent spelling name left (literalText c length left .tag) := by
  obtain ⟨raw, value, gap, text, same⟩ := exists_isGap spelling left .tag next (by simp)
  have named : name.toList = [] ∨ IsTagName name.toList := by simpa using isName
  have content := @IsGap.isContent_close [] [] _ _ _ _ gap named blank_nil blank_nil
  rw [String.ofList_toList] at content
  refine IsContent.congr (?_ : IsContent _ name left (textChildren value)) same
  simpa [text, printedClosing] using content

theorem prints_element_child
    (next : ContentMark.next c.rest = (length, .openingTag))
    (isElement : IsElement (element.map (Expression.printed spelling)).printed
      (element.map Expression.resolved))
    (content : PrintsContent spelling name .tag children) :
    PrintsContent spelling name left
      (literalText c length left .tag ++ .element element :: children) := by
  obtain ⟨raw, value, gap, text, same⟩ := exists_isGap spelling left .tag next (by simp)
  have content := gap.isContent_element isElement content
  refine IsContent.congr (?_ : IsContent _ name left (textChildren value ++
    .element (element.map Expression.resolved) :: children.map (·.map Expression.resolved))) ?_
  · simpa [text, Child.map, Child.printed] using content
  · simp only [List.map_append, List.map_cons, same, Child.map]

theorem prints_braces_child
    (next : ContentMark.next c.rest = (length, .brace))
    (isBraces : IsBraces (child.map (Expression.printed spelling)).printed
      (child.map Expression.resolved))
    (content : PrintsContent spelling name .hole children) :
    PrintsContent spelling name left (literalText c length left .hole ++ child :: children) := by
  obtain ⟨raw, value, gap, text, same⟩ := exists_isGap spelling left .hole next (by simp)
  have content := gap.isContent_braces isBraces content
  refine IsContent.congr (?_ : IsContent _ name left (textChildren value ++
    child.map Expression.resolved :: children.map (·.map Expression.resolved))) ?_
  · simpa [text] using content
  · simp only [List.map_append, List.map_cons, same]

end Content

theorem prints_selfClosing
    (isName : IsTagName name.toList)
    (tail : IsHeaderTail
      (printedHeader (items.map (·.map (Expression.printed spelling))) .selfClosing)
      (items.map (·.map Expression.resolved)) .selfClosing) :
    IsElement ((Element.selfClosing name items span).map (Expression.printed spelling)).printed
      ((Element.selfClosing name items span).map Expression.resolved) := by
  have isElement := @isElement_selfClosing [] _ _ _ span isName blank_nil tail
  rw [String.ofList_toList] at isElement
  simpa [Element.selfClosing, Element.map, Element.printed, Child.mapAll] using isElement

theorem prints_closed
    (isName : IsTagName name.toList)
    (tail : IsHeaderTail
      (printedHeader (items.map (·.map (Expression.printed spelling))) .content)
      (items.map (·.map Expression.resolved)) .content)
    (content : PrintsContent spelling name .tag children) :
    IsElement
      (Element.map (Expression.printed spelling) ⟨name, items, children, some name, span⟩).printed
      (Element.map Expression.resolved ⟨name, items, children, some name, span⟩) := by
  have named : String.ofList name.toList = name := String.ofList_toList
  have isElement := @isElement_closed [] _ _ _ _ _ span isName blank_nil tail (named.symm ▸ content)
  rw [named] at isElement
  simpa [Element.map, Element.printed, Child.mapAll_eq, Child.printedOfAll_eq] using isElement

theorem prints_fragment (content : PrintsContent spelling "" .tag children) :
    IsElement
      (Element.map (Expression.printed spelling) ⟨"", [], children, some "", span⟩).printed
      (Element.map Expression.resolved ⟨"", [], children, some "", span⟩) := by
  have isElement := @isElement_fragment [] _ _ span blank_nil content
  simpa [Element.map, Element.printed, Child.mapAll_eq, Child.printedOfAll_eq, printedHeader,
    HeaderEnd.printed] using isElement

end Elements

/-! ## The rules -/

/-- Entries without keys are arguments. -/
theorem isArgument_of_mem
    {items : List (ArrayItem Expression)}
    (entries : Phrase.Prints spelling c d (.entries .rightParen false items)) :
    ∀ argument ∈ items.map ArrayItem.toArgument,
      IsArgument (argument.map (Expression.printed spelling)).printed
        (argument.map Expression.resolved) := by
  intro argument member
  obtain ⟨item, inside, rfl⟩ := List.mem_map.mp member
  exact (entries item inside).2 rfl

/-- An empty hole is the null constant. -/
theorem prints_getD
    {part : Option Expression}
    {span : Span}
    (prints : ∀ expression, part = some expression → expression.Prints spelling) :
    (part.getD (HostConstants.nullAt span)).Prints spelling := by
  cases part with
  | none => exact Expression.prints_constant ⟨by decide, rfl⟩
  | some expression => exact prints expression rfl

/-- A hole in content is printed in braces. -/
theorem prints_hole
    {hole : Hole Expression}
    (prints : hole.expression.Prints spelling) :
    IsBraces ((Child.hole hole).map (Expression.printed spelling)).printed
      ((Child.hole hole).map Expression.resolved) := by
  have braces := @IsHole.isBraces _ _ default hole.span (prints.leads.isHole blank_nil blank_nil)
  simpa [Child.map, Child.printed, Printed.braced, Expression.print] using braces

/-- Every phrase that is read is printed so that it is read again. -/
theorem prints_of_reads
    {level : Nat}
    {phrase : Phrase}
    (reads : Reads level phrase c d) :
    phrase.Prints spelling c d := by
  induction reads with
  | expression _ _ _ operand continuation => exact continuation operand
  | stop => exact id
  | connect _ _ _ _ _ connection continuation =>
      exact fun left => continuation (connection left _)
  | binary _ operand => exact fun left _ => left.binary operand
  | assign assignable _ value => exact fun left _ => left.assign assignable value
  | ternary _ _ _ ifTrue ifFalse => exact fun left _ => left.ternary ifTrue ifFalse
  | absent => exact fun _ none => nomatch none
  | present _ _ _ part =>
      rintro _ ⟨⟩
      exact part
  | markup _ _ _ element => exact Expression.prints_markup element
  | not _ _ _ _ inner => exact inner.signed .not
  | negate _ _ _ _ inner => exact inner.signed .negate
  | unsigned _ _ _ _ _ _ _ primary accesses => exact accesses primary
  | leaf _ next leaf => exact .value (Expression.prints_leaf next leaf)
  | name _ next plain =>
      obtain ⟨isWord, kind⟩ := next.isWord
      have spells := spells_word isWord
      rw [String.ofList_toList, ← kind] at spells
      exact .name ⟨spells, plain⟩
  | arrayCall _ _ _ _ _ entries =>
      exact .value (Expression.prints_array fun item member => (entries item member).1)
  | array _ _ _ entries =>
      exact .value (Expression.prints_array fun item member => (entries item member).1)
  | function _ _ _ arrow => exact .value (arrow _)
  | parenthesized _ _ _ inner => exact .value inner
  | noParameters => exact fun _ none => nomatch none
  | lastParameter _ _ _ _ read _ _ =>
      exact List.forall_mem_singleton.mpr (NextLexeme.isIdentifier ⟨_, read⟩)
  | moreParameters _ _ _ _ read _ _ others =>
      exact List.forall_mem_cons.mpr ⟨NextLexeme.isIdentifier ⟨_, read⟩, others⟩
  | arrowFunction _ _ _ _ names body => exact fun _ => body.arrowFunction names
  | plainEntry _ _ _ _ value => exact ⟨value.isEntry, fun _ => value.isEntry⟩
  | keyedEntry _ _ _ _ _ key value =>
      exact ⟨key.leads.isEntry_keyed value.leads, fun unkeyed => nomatch unkeyed⟩
  | noEntries => exact fun _ none => nomatch none
  | lastEntry _ _ _ _ _ item => exact List.forall_mem_singleton.mpr item
  | moreEntries _ _ _ _ _ item items => exact List.forall_mem_cons.mpr ⟨item, items⟩
  | plainMember word _ _ => exact isMember_plain word.isWord.1
  | calledMember word _ _ entries =>
      exact isMember_called word.isWord.1
        (Expression.forall₂_isArgument (isArgument_of_mem entries))
  | memberAccess _ _ isMember => exact fun base _ => base.member isMember
  | entryAccess _ _ _ index => exact fun base _ => base.entry index
  | callAccess next callable _ entries =>
      exact fun base _ => base.call next callable (isArgument_of_mem entries)
  | staticAccess _ named _ isMember => exact fun base _ => base.staticMember named isMember
  | noAccess => exact fun base => base.alone
  | moreAccesses _ _ access accesses => exact fun base => accesses (.value (access base _))
  | emptyHole => exact fun _ none => nomatch none
  | filledHole _ _ _ inner =>
      rintro _ ⟨⟩
      exact inner
  | spread _ _ _ inner => exact inner
  | quotedValue => exact Expression.prints_string _
  | holeValue _ _ hole => exact prints_getD hole
  | bareAttribute _ nonempty valid _ _ =>
      refine ⟨⟨?_, ?_⟩, Expression.prints_constant ⟨by decide, rfl⟩⟩ <;> rwa [String.toList_ofList]
  | valuedAttribute _ nonempty valid _ _ value =>
      refine ⟨⟨?_, ?_⟩, value⟩ <;> rwa [String.toList_ofList]
  | headerEnd => exact prints_header_end .content
  | selfClosingEnd => exact prints_header_end .selfClosing
  | spreadItem _ _ _ operand tail => exact prints_spread operand tail
  | attributeItem _ _ item tail => exact prints_named item.1 item.2 tail
  | fragmentHeader => exact .inl ⟨rfl, rfl, rfl⟩
  | namedHeader named _ tail => exact .inr ⟨isTagName_of_readTagName named, tail⟩
  | selfClosingElement _ _ ending header =>
      rcases header with ⟨-, -, content⟩ | ⟨isName, tail⟩
      · rw [ending] at content
        cases content
      · rw [ending] at tail
        exact prints_selfClosing isName tail
  | @closedElement _ header _ _ _ _ _ _ _ ending _ prints content =>
      obtain ⟨name, items, kind⟩ := header
      rcases prints with ⟨rfl, rfl, -⟩ | ⟨isName, tail⟩
      · exact prints_fragment (content (.inl rfl))
      · obtain rfl : kind = .content := ending
        exact prints_closed isName tail (content (.inr isName))
  | comment found => exact isBraces_of_readComment? found
  | hole _ _ _ hole => exact prints_hole (prints_getD hole)
  | closeContent next _ => exact fun isName => prints_close next isName
  | elementChild next _ _ element content =>
      exact fun isName => prints_element_child next element (content isName)
  | bracesChild next _ _ braces content =>
      exact fun isName => prints_braces_child next braces (content isName)

/-! ## Round trip -/

namespace Expression

/-- What is read from a text is printed so that it is read again. -/
theorem prints_of_ofText
    {text : String}
    {budget : Nat}
    {expression : Expression}
    (read : ofText text budget = .ok expression) :
    expression.Prints spelling := by
  obtain ⟨stop, behind, reads, -⟩ := reads_of_ofText read
  exact prints_of_reads reads

/-- A property of a variable is read from its text. -/
theorem exists_ofText_property :
    ∃ budget expression, ofText "$x -> y" budget = .ok expression := by
  have isIdentifier : IsIdentifier ['x'] := ⟨rfl, by decide⟩
  have variable_ := @Spells.isPrimary _ _ _ default (spells_variable isIdentifier) rfl
  have isMember := @isMember_plain "y" ⟨rfl, by decide⟩
  have operand := variable_.access trivial
    (@IsMember.isAccess _ _ ⟨.variable "x", default⟩ _ false isMember)
    (rfl : isName ⟨_, default⟩ = false)
  obtain ⟨read, least, -, reads⟩ := (operand.leads.mono (Nat.zero_le _)).ofText_eq_ok
  exact ⟨least, read, reads least (Nat.le_refl _)⟩

/--
What is read from a text is printed as a text that is read as the same expression with resolved
names, up to spans.  It is the same expression exactly where nothing in it is accessed on a name.
-/
theorem ofText_print_of_ofText
    {text : String}
    {budget : Nat}
    {expression : Expression}
    (spelling : NumberSpelling)
    (read : ofText text budget = .ok expression) :
    ∃ again least, again.withoutSpans = expression.resolved.withoutSpans ∧
      (∀ budget, least ≤ budget →
        ofText (String.ofList (expression.print spelling)) budget = .ok again) ∧
      (again.withoutSpans = expression.withoutSpans ↔
        ∀ inner, expression.Contains inner → inner.accessesName = false) := by
  have prints : expression.Prints spelling := prints_of_ofText read
  obtain ⟨again, least, same, reads⟩ := prints.leads.ofText_eq_ok
  refine ⟨again, least, same, reads, ?_⟩
  rw [same]
  exact withoutSpans_resolved_eq_iff expression

theorem ofText_print_of_ofText_property :
    ∃ spelling budget expression, ofText "$x -> y" budget = .ok expression ∧
      ∃ again least, again.withoutSpans = expression.resolved.withoutSpans ∧
        (∀ budget, least ≤ budget →
          ofText (String.ofList (expression.print spelling)) budget = .ok again) ∧
        (again.withoutSpans = expression.withoutSpans ↔
          ∀ inner, expression.Contains inner → inner.accessesName = false) := by
  obtain ⟨spelling⟩ := nonempty_numberSpelling
  obtain ⟨budget, expression, read⟩ := exists_ofText_property
  exact ⟨spelling, budget, expression, read, ofText_print_of_ofText spelling read⟩

/-- A name stays a name where a property is accessed on it. -/
theorem exists_ofText_namedProperty :
    ∃ budget first whole, ofText "A -> b" budget =
      .ok ⟨.property ⟨.bareName "A", first⟩ "b" false, whole⟩ := by
  have spells : Spells "A".toList (.word .identifier "A") := ⟨by decide, rfl⟩
  have primary := @Spells.isPrimary_name _ default spells
  have isMember := @isMember_plain "b" ⟨rfl, by decide⟩
  have operand := primary.access (fun _ => by decide)
    (@IsMember.isAccess _ _ ⟨.bareName "A", default⟩ _ false isMember)
    (rfl : isName ⟨_, default⟩ = false)
  obtain ⟨⟨form, whole⟩, least, same, reads⟩ := (operand.leads.mono (Nat.zero_le _)).ofText_eq_ok
  rw [withoutSpans_mk, withoutSpans_mk, Expression.mk.injEq] at same
  cases form with
  | property object name nullsafe =>
      obtain ⟨form, first⟩ := object
      have parts := ExpressionForm.property.inj same.1
      rw [withoutSpans_mk, withoutSpans_mk, Expression.mk.injEq] at parts
      obtain ⟨⟨named, -⟩, rfl, rfl⟩ := parts
      cases form with
      | bareName name =>
          obtain rfl := ExpressionForm.bareName.inj named
          exact ⟨least, first, whole, reads least (Nat.le_refl _)⟩
      | _ => simp at named
  | _ => simp [memberForm] at same

/-- In the parentheses of an operand the name becomes a constant. -/
theorem ofText_print_namedProperty_ne :
    ∃ budget expression, ofText "A -> b" budget = .ok expression ∧
      ∀ spelling, String.ofList (expression.print spelling) = "( A ) -> b" ∧
        ∃ again least, (∀ budget, least ≤ budget → ofText "( A ) -> b" budget = .ok again) ∧
          again.withoutSpans ≠ expression.withoutSpans := by
  obtain ⟨budget, first, whole, read⟩ := exists_ofText_namedProperty
  refine ⟨budget, _, read, fun spelling => ⟨rfl, ?_⟩⟩
  have prints := @prints_of_ofText spelling _ _ _ read
  obtain ⟨again, least, same, reads⟩ := prints.leads.ofText_eq_ok
  refine ⟨again, least, reads, ?_⟩
  rw [same]
  simp [resolved_mk, ExpressionForm.map, ExpressionForm.mapBase, nameAsConstant]

end Expression

end EmbeddedMarkup
