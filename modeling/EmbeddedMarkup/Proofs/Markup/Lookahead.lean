import EmbeddedMarkup.Proofs.Markup.Copy

/-!
# The rule that applies

The readers of markup decide by the next characters how to go on.  So where these are known, one
rule of reading applies at most, and what its premises read is all that can be read.
-/

namespace EmbeddedMarkup

open Cursor

variable {level : Nat} {c d named : Cursor}

theorem eat?_of_peek? {ch : Char} (ahead : c.peek? = some ch) : c.eat? ch = some c.advance :=
  eat?_eq_some_iff.mpr ⟨ahead, rfl⟩

/-! ## Holes -/

section Holes

variable {part : Option Expression} {operand : Expression}

/-- Braces in which something else than the closing one is ahead hold an expression. -/
theorem reads_hole_iff (filled : c.skipBlanks.peek? ≠ some '\x7d') :
    Reads level (.hole part) c d ↔
      ∃ inner middle, part = some inner ∧ Reads level (.expression 0 inner) c.skipBlanks middle ∧
        middle.skipBlanks.eat? '\x7d' = some d := by
  constructor
  · intro reads
    cases reads with
    | emptyHole closed => exact absurd (eat?_eq_some_iff.mp closed).1 filled
    | filledHole _ inner closed => exact ⟨_, _, rfl, inner, closed⟩
  · rintro ⟨inner, middle, rfl, reads, closed⟩
    exact .filledHole filled reads closed

/-- Behind the ellipsis a spread has an expression. -/
theorem reads_spread_iff {behind : Cursor} (dots : c.Passes "...".toList behind) :
    Reads level (.spread operand) c d ↔
      ∃ middle, Reads level (.expression 0 operand) behind.skipBlanks middle ∧
        middle.skipBlanks.eat? '\x7d' = some d := by
  have here := skipBlanks_of_peek? (passes_cons.mp dots).1 rfl
  have eaten := dots.eatText?
  constructor
  · intro reads
    cases reads with
    | spread dots' inner closed =>
        rw [here, eaten] at dots'
        cases dots'
        exact ⟨_, inner, closed⟩
  · rintro ⟨middle, reads, closed⟩
    rw [← here] at eaten
    exact .spread eaten reads closed

/-- Braces that hold neither a comment alone nor a spread are a hole. -/
theorem reads_braces_iff
    {child : Child Expression}
    (uncommented : readComment? c = .ok none)
    (unspread : startsSpread c.advance.rest = false) :
    Reads level (.braces child) c d ↔
      ∃ part : Option Expression, Reads level (.hole part) c.advance d ∧
        child = .hole ⟨part.getD (HostConstants.nullAt (c.spanTo d)), c.spanTo d⟩ := by
  constructor
  · intro reads
    cases reads with
    | comment found =>
        rw [uncommented] at found
        cases found
    | hole _ _ reads => exact ⟨_, reads, rfl⟩
  · rintro ⟨part, reads, rfl⟩
    exact .hole uncommented unspread reads

end Holes

/-! ## Tag headers -/

section Headers

variable {tail : HeaderTail Expression}

/-- Behind a tag name there is the rest of the header. -/
theorem reads_header_iff
    {tagName : List Char}
    {header : Header Expression}
    (isName : IsTagName tagName)
    (passes : c.Passes tagName named)
    (ends : EndsTagName named.rest) :
    Reads level (.header header) c d ↔
      ∃ tail : HeaderTail Expression, header = ⟨String.ofList tagName, tail.1, tail.2⟩ ∧
        Reads level (.headerTail tail) named d := by
  obtain ⟨first, more, rfl, start⟩ := isName.exists_cons
  have opens := (passes_cons.mp passes).1
  have here := skipBlanks_of_peek? opens (isBlank_eq_false_of_isIdentifierStart start)
  have passes' : c.skipBlanks.Passes (first :: more) named := by rwa [here]
  obtain ⟨reached, found⟩ := readTagName_eq_ok isName passes' ends
  constructor
  · intro reads
    cases reads with
    | fragmentHeader closed =>
        rw [here] at closed
        have bracket := opens.symm.trans (eat?_eq_some_iff.mp closed).1
        cases bracket
        cases start
    | namedHeader found' rest =>
        rw [found] at found'
        cases found'
        exact ⟨_, rfl, rest⟩
  · rintro ⟨tail, rfl, rest⟩
    exact .namedHeader found rest

/-- The name of an attribute starts with a character that delimits no name. -/
theorem exists_peek?_of_reads_attribute
    {item : Attribute Expression}
    (reads : Reads level (.attribute item) c d) :
    ∃ ch, c.peek? = some ch ∧ isNameDelimiter ch = false := by
  have starts {name : List Char} (spelled : c.textWhile (!isNameDelimiter ·) = name)
      (nonempty : name ≠ []) : ∃ ch, c.peek? = some ch ∧ isNameDelimiter ch = false := by
    cases rest : c.rest with
    | nil =>
        rw [textWhile, rest] at spelled
        exact absurd spelled.symm nonempty
    | cons ch more =>
        refine ⟨ch, peek?_eq_some_iff.mpr ⟨more, rest⟩, ?_⟩
        cases delimiter : isNameDelimiter ch with
        | false => rfl
        | true =>
            rw [textWhile, rest, List.takeWhile_cons_of_neg (by simp [delimiter])] at spelled
            exact absurd spelled.symm nonempty
  cases reads with
  | bareAttribute spelled nonempty _ _ _ => exact starts spelled nonempty
  | valuedAttribute spelled nonempty _ _ _ => exact starts spelled nonempty

/-- A bracket ends a header. -/
theorem reads_headerTail_iff_of_bracket (closes : c.peek? = some '>') :
    Reads level (.headerTail tail) c d ↔ tail = ([], .content) ∧ d = c.advance := by
  have here := skipBlanks_of_peek? closes rfl
  obtain ⟨more, ahead⟩ := peek?_eq_some_iff.mp closes
  constructor
  · intro reads
    cases reads with
    | headerEnd closed =>
        rw [here, eat?_eq_some_iff] at closed
        exact ⟨rfl, closed.2⟩
    | selfClosingEnd closed =>
        rw [here, eatText?_eq_some_iff, ahead] at closed
        obtain ⟨⟨behind, slash⟩, -⟩ := closed
        cases slash
    | spreadItem opened _ _ =>
        rw [here, eat?_eq_some_iff, closes] at opened
        cases opened.1
    | attributeItem item _ =>
        obtain ⟨ch, starts, undelimited⟩ := exists_peek?_of_reads_attribute item
        rw [here, closes] at starts
        cases starts
        cases undelimited
  · rintro ⟨rfl, rfl⟩
    refine .headerEnd ?_
    rw [here]
    exact eat?_of_peek? closes

/-- A slash and a bracket end a header and its element. -/
theorem reads_headerTail_iff_of_slash {behind : Cursor} (closes : c.Passes "/>".toList behind) :
    Reads level (.headerTail tail) c d ↔ tail = ([], .selfClosing) ∧ d = behind := by
  obtain ⟨slash, -⟩ := passes_cons.mp closes
  have here := skipBlanks_of_peek? slash rfl
  have eaten := closes.eatText?
  constructor
  · intro reads
    cases reads with
    | headerEnd closed =>
        rw [here, eat?_eq_some_iff, slash] at closed
        cases closed.1
    | selfClosingEnd closed =>
        rw [here, eaten] at closed
        cases closed
        exact ⟨rfl, rfl⟩
    | spreadItem opened _ _ =>
        rw [here, eat?_eq_some_iff, slash] at opened
        cases opened.1
    | attributeItem item _ =>
        obtain ⟨ch, starts, undelimited⟩ := exists_peek?_of_reads_attribute item
        rw [here, slash] at starts
        cases starts
        cases undelimited
  · rintro ⟨rfl, rfl⟩
    rw [← here] at eaten
    exact .selfClosingEnd eaten

/-- A brace in a header opens a spread. -/
theorem reads_headerTail_iff_of_brace (opens : c.skipBlanks.peek? = some '\x7b') :
    Reads level (.headerTail tail) c d ↔
      ∃ operand middle, ∃ rest : HeaderTail Expression,
        Reads level (.spread operand) c.skipBlanks.advance middle ∧
          Reads level (.headerTail rest) middle d ∧
          tail = .cons (.spread ⟨operand, c.skipBlanks.spanTo middle⟩) rest := by
  obtain ⟨more, ahead⟩ := peek?_eq_some_iff.mp opens
  constructor
  · intro reads
    cases reads with
    | headerEnd closed =>
        rw [eat?_eq_some_iff, opens] at closed
        cases closed.1
    | selfClosingEnd closed =>
        rw [eatText?_eq_some_iff, ahead] at closed
        obtain ⟨⟨behind, slash⟩, -⟩ := closed
        cases slash
    | spreadItem opened spread rest =>
        obtain ⟨-, rfl⟩ := eat?_eq_some_iff.mp opened
        exact ⟨_, _, _, spread, rest, rfl⟩
    | attributeItem item _ =>
        obtain ⟨ch, starts, undelimited⟩ := exists_peek?_of_reads_attribute item
        rw [opens] at starts
        cases starts
        cases undelimited
  · rintro ⟨operand, middle, rest, spread, reads, rfl⟩
    exact .spreadItem (eat?_of_peek? opens) spread reads

/-- Where a name is ahead, an attribute is. -/
theorem reads_headerTail_iff_of_name
    {first : Char}
    (starts : c.skipBlanks.peek? = some first)
    (undelimited : isNameDelimiter first = false) :
    Reads level (.headerTail tail) c d ↔
      ∃ item middle, ∃ rest : HeaderTail Expression,
        Reads level (.attribute item) c.skipBlanks middle ∧
          Reads level (.headerTail rest) middle d ∧ tail = .cons (.named item) rest := by
  obtain ⟨more, ahead⟩ := peek?_eq_some_iff.mp starts
  constructor
  · intro reads
    cases reads with
    | headerEnd closed =>
        rw [eat?_eq_some_iff, starts] at closed
        cases closed.1
        cases undelimited
    | selfClosingEnd closed =>
        rw [eatText?_eq_some_iff, ahead] at closed
        obtain ⟨⟨behind, slash⟩, -⟩ := closed
        cases slash
        cases undelimited
    | spreadItem opened _ _ =>
        rw [eat?_eq_some_iff, starts] at opened
        cases opened.1
        cases undelimited
    | attributeItem item rest => exact ⟨_, _, _, item, rest, rfl⟩
  · rintro ⟨item, middle, rest, reads, tail, rfl⟩
    exact .attributeItem reads tail

/-- Behind a name and an equals sign there is the value of an attribute. -/
theorem reads_attribute_iff
    {name : List Char}
    {item : Attribute Expression}
    (isName : IsAttributeName name)
    (passes : c.Passes name named)
    (equals : named.peek? = some '=') :
    Reads level (.attribute item) c d ↔
      ∃ value, Reads level (.attributeValue value) named.advance.skipBlanks d ∧
        item = ⟨String.ofList name, value, c.spanTo d⟩ := by
  have ends : ∀ ch, named.peek? = some ch → (!isNameDelimiter ch) = false := by
    intro ch ahead
    rw [equals] at ahead
    cases ahead
    rfl
  have spelled := passes.textWhile isName.undelimited ends
  have eaten : (c.advanceBy name.length).skipBlanks.eat? '=' = some named.advance := by
    rw [← passes.2, skipBlanks_of_peek? equals rfl]
    exact eat?_of_peek? equals
  constructor
  · intro reads
    cases reads with
    | bareAttribute spelled' _ _ reached bare =>
        obtain rfl := spelled.symm.trans spelled'
        rw [reached, eaten] at bare
        cases bare
    | valuedAttribute spelled' _ _ equals' value =>
        obtain rfl := spelled.symm.trans spelled'
        rw [eaten] at equals'
        cases equals'
        exact ⟨_, value, rfl⟩
  · rintro ⟨value, reads, rfl⟩
    exact .valuedAttribute spelled isName.nonempty isName.valid eaten reads

/-- A value in braces is that of the hole. -/
theorem reads_attributeValue_iff
    {value : Expression}
    (opens : c.peek? = some '\x7b') :
    Reads level (.attributeValue value) c d ↔
      ∃ part : Option Expression, Reads level (.hole part) c.advance d ∧
        value = part.getD (HostConstants.nullAt (c.spanTo d)) := by
  constructor
  · intro reads
    cases reads with
    | quotedValue quotes quoted _ =>
        rw [opens] at quoted
        rcases quotes with rfl | rfl <;> cases quoted
    | holeValue _ reads => exact ⟨_, reads, rfl⟩
  · rintro ⟨part, reads, rfl⟩
    exact .holeValue opens reads

end Headers

/-! ## Content -/

section Content

variable {name : String} {left : Boundary} {children : List (Child Expression)}

/-- A brace in content holds a child. -/
theorem reads_content_iff_of_brace (opens : c.peek? = some '\x7b') :
    Reads level (.content name left children) c d ↔
      ∃ child rest middle, Reads level (.braces child) c middle ∧
        Reads level (.content name .hole rest) middle d ∧ children = child :: rest := by
  obtain ⟨more, ahead⟩ := peek?_eq_some_iff.mp opens
  have mark : ContentMark.next c.rest = (0, .brace) := by
    rw [ahead]
    exact ContentMark.next_brace more
  constructor
  · intro reads
    cases reads with
    | closeContent mark' _ =>
        rw [mark] at mark'
        cases mark'
    | elementChild mark' _ _ =>
        rw [mark] at mark'
        cases mark'
    | bracesChild mark' braces content =>
        rw [mark] at mark'
        cases mark'
        exact ⟨_, _, _, braces, content, rfl⟩
  · rintro ⟨child, rest, middle, braces, content, rfl⟩
    exact .bracesChild mark braces content

/-- A closing tag ends content. -/
theorem reads_content_iff_of_closing
    {tagName : List Char}
    {behind : Cursor}
    (isName : IsTagName tagName)
    (closes : c.Passes (['<', '/'] ++ (tagName ++ ['>'])) behind) :
    Reads level (.content (String.ofList tagName) left children) c d ↔
      children = [] ∧ d = behind := by
  have mark : ContentMark.next c.rest = (0, .closingTag) := by
    rw [closes.1]
    exact ContentMark.next_closingTag _
  have closes' : c.Passes (['<', '/'] ++ ([] ++ (tagName ++ [] ++ ['>']))) behind := by
    simpa using closes
  obtain ⟨reached, closed⟩ := readClosingTag_eq_ok (.inr isName) (by simp) (by simp) closes'
  constructor
  · intro reads
    generalize same : String.ofList tagName = name at reads
    cases reads with
    | closeContent mark' closed' =>
        subst same
        rw [mark] at mark'
        cases mark'
        have once := closed.symm.trans closed'
        cases once
        exact ⟨rfl, rfl⟩
    | elementChild mark' _ _ =>
        rw [mark] at mark'
        cases mark'
    | bracesChild mark' _ _ =>
        rw [mark] at mark'
        cases mark'
  · rintro ⟨rfl, rfl⟩
    exact .closeContent mark closed

end Content

/-! ## Elements -/

/-- Behind its name an element has the rest of its header, and content if that does not end it. -/
theorem reads_element_iff
    {element : Element Expression}
    {tagName : List Char}
    (isName : IsTagName tagName)
    (opens : c.peek? = some '<')
    (passes : c.advance.Passes tagName named)
    (ends : EndsTagName named.rest) :
    Reads (level + 1) (.element element) c d ↔
      ∃ tail : HeaderTail Expression, ∃ behind, Reads level (.headerTail tail) named behind ∧
        (tail.2 = .selfClosing ∧ d = behind ∧
            element = .selfClosing (String.ofList tagName) tail.1 (c.spanTo d) ∨
          tail.2 = .content ∧ ∃ children,
            Reads level (.content (String.ofList tagName) .tag children) behind d ∧
            element = ⟨String.ofList tagName, tail.1, children, some (String.ofList tagName),
              c.spanTo d⟩) := by
  constructor
  · intro reads
    cases reads with
    | selfClosingElement opened header ending =>
        obtain ⟨-, rfl⟩ := eat?_eq_some_iff.mp opened
        obtain ⟨tail, rfl, reads⟩ := (reads_header_iff isName passes ends).mp header
        exact ⟨tail, _, reads, .inl ⟨ending, rfl, rfl⟩⟩
    | closedElement opened header ending content =>
        obtain ⟨-, rfl⟩ := eat?_eq_some_iff.mp opened
        obtain ⟨tail, rfl, reads⟩ := (reads_header_iff isName passes ends).mp header
        exact ⟨tail, _, reads, .inr ⟨ending, _, content, rfl⟩⟩
  · rintro ⟨tail, behind, reads, rest⟩
    have header := (reads_header_iff isName passes ends).mpr ⟨tail, rfl, reads⟩
    rcases rest with ⟨ending, rfl, rfl⟩ | ⟨ending, children, content, rfl⟩
    · exact .selfClosingElement (eat?_of_peek? opens) header ending
    · exact .closedElement (eat?_of_peek? opens) header ending content

end EmbeddedMarkup
