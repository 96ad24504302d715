import EmbeddedMarkup.Proofs.Markup.Writing
import EmbeddedMarkup.Proofs.Reading.Inclusion

/-!
# Headers and content are tiled

The children of an element tile the source between its header and its closing tag, and the
entries of a header tile the source between the tag name and the end of the header.  Between two
entries there is only blank space.  Between two children there is either only blank space, or one
literal text that covers everything there and holds its normal form.

So no character of a source is lost: what is in no child, entry, name or delimiter is blank.
-/

namespace EmbeddedMarkup

variable {ε : Type}

/-- What a child is to the text next to it. -/
def Child.boundary : Child ε → Boundary
  | .element _ => .tag
  | _ => .hole

/-- The child is literal text. -/
def Child.IsText (child : Child ε) : Prop :=
  ∃ text, child = .text text

/--
The literal texts that the source between two cursors makes, between two boundaries: none if it is
blank, and otherwise one that covers it.
-/
inductive Gap (left right : Boundary) (start stop : Cursor) : List (Child ε) → Prop
  | blank :
      Blank (start.textTo stop) →
      Gap left right start stop []
  | text {value : String} :
      ¬Blank (start.textTo stop) →
      normalizeText (start.textTo stop) (left == .tag) (right == .tag) = some value →
      Gap left right start stop [.text ⟨value, start.spanTo stop⟩]

/--
Children tile the source from `start`, where `left` stands, to the closing tag at `stop`: the
children that are no literal text cover a part of it each, in order, and the literal texts are
those that the gaps make.
-/
inductive Tiling : Boundary → Cursor → List (Child ε) → Cursor → Prop
  | last {left : Boundary} {start stop : Cursor} {texts : List (Child ε)} :
      start ≤ stop →
      Gap left .tag start stop texts →
      Tiling left start texts stop
  | child {left : Boundary} {start first behind stop : Cursor} {texts children : List (Child ε)}
      {child : Child ε} :
      start ≤ first →
      Gap left child.boundary start first texts →
      ¬child.IsText →
      first < behind →
      child.span = first.spanTo behind →
      Tiling child.boundary behind children stop →
      Tiling left start (texts ++ child :: children) stop

/-- Entries tile the source from `start` to `stop`, with blank space in front of and behind each. -/
inductive HeaderTiling : Cursor → List (AttributeItem ε) → Cursor → Prop
  | last {start stop : Cursor} :
      start ≤ stop →
      Blank (start.textTo stop) →
      HeaderTiling start [] stop
  | item {start first behind stop : Cursor} {item : AttributeItem ε}
      {items : List (AttributeItem ε)} :
      start ≤ first →
      Blank (start.textTo first) →
      first < behind →
      item.span = first.spanTo behind →
      HeaderTiling behind items stop →
      HeaderTiling start (item :: items) stop

/-- The text from one cursor to the other starts an opening tag of this name. -/
def OpensTag (start : Cursor) (name : String) (stop : Cursor) : Prop :=
  start ≤ stop ∧ ∃ blanks, Blank blanks ∧ start.textTo stop = '<' :: (blanks ++ name.toList)

/-- An element stands in the source behind `origin`, which its header and its content tile. -/
inductive Element.Tiled (origin : Cursor) (element : Element ε) : Prop
  | selfClosing {start named ending stop : Cursor} :
      origin ≤ start →
      element.span = start.spanTo stop →
      OpensTag start element.name named →
      HeaderTiling named element.attributes ending →
      ending.eatText? "/>" = some stop →
      element.closingName = none →
      element.children = [] →
      Element.Tiled origin element
  | closed {start named ending inside closing stop : Cursor} :
      origin ≤ start →
      element.span = start.spanTo stop →
      OpensTag start element.name named →
      HeaderTiling named element.attributes ending →
      ending.eat? '>' = some inside →
      Tiling .tag inside element.children closing →
      ClosesTag closing element.name stop →
      element.closingName = some element.name →
      Element.Tiled origin element

/-- Spans in order, no two of which overlap. -/
def InOrder (spans : List Span) : Prop :=
  spans.Pairwise fun first second => first.stop ≤ second.start

section Order

variable {start stop : Cursor} {left right : Boundary}

theorem HeaderTiling.le
    {items : List (AttributeItem ε)}
    (tiling : HeaderTiling start items stop) :
    start ≤ stop := by
  induction tiling with
  | last reached => exact reached
  | item ahead _ passed _ _ ih =>
      exact Cursor.le_trans ahead (Cursor.le_trans (Cursor.le_of_lt passed) ih)

theorem Tiling.le
    {children : List (Child ε)}
    (tiling : Tiling left start children stop) :
    start ≤ stop := by
  induction tiling with
  | last reached => exact reached
  | child ahead _ _ passed _ _ ih =>
      exact Cursor.le_trans ahead (Cursor.le_trans (Cursor.le_of_lt passed) ih)

theorem HeaderTiling.le_of_mem
    {items : List (AttributeItem ε)}
    {item : AttributeItem ε}
    (tiling : HeaderTiling start items stop)
    (member : item ∈ items) :
    start.position.offset ≤ item.span.start := by
  induction tiling with
  | last => cases member
  | item ahead _ passed span _ ih =>
      have toFirst := Cursor.offset_le_of_le ahead
      have toBehind := Cursor.offset_le_of_le (Cursor.le_of_lt passed)
      rcases List.mem_cons.mp member with rfl | member
      · rw [span]
        exact toFirst
      · exact Nat.le_trans (Nat.le_trans toFirst toBehind) (ih member)

/-- The entries of a tiled header are in order. -/
theorem HeaderTiling.inOrder
    {items : List (AttributeItem ε)}
    (tiling : HeaderTiling start items stop) :
    InOrder (items.map AttributeItem.span) := by
  induction tiling with
  | last => exact List.Pairwise.nil
  | item _ _ _ span rest ih =>
      refine List.Pairwise.cons ?_ ih
      intro other member
      obtain ⟨item, present, rfl⟩ := List.mem_map.mp member
      rw [span]
      exact rest.le_of_mem present

/-- The literal texts of a gap are one text or none, and it covers the gap. -/
theorem Gap.span_eq
    {texts : List (Child ε)}
    {child : Child ε}
    (gap : Gap left right start stop texts)
    (member : child ∈ texts) :
    child.span = start.spanTo stop := by
  cases gap with
  | blank => cases member
  | text =>
      obtain rfl := List.mem_singleton.mp member
      rfl

theorem Gap.inOrder
    {texts : List (Child ε)}
    (gap : Gap left right start stop texts) :
    InOrder (texts.map Child.span) := by
  cases gap with
  | blank => exact List.Pairwise.nil
  | text => exact List.pairwise_singleton _ _

theorem Tiling.le_of_mem
    {children : List (Child ε)}
    {child : Child ε}
    (tiling : Tiling left start children stop)
    (member : child ∈ children) :
    start.position.offset ≤ child.span.start := by
  induction tiling with
  | last _ gap =>
      rw [gap.span_eq member]
      exact Nat.le_refl _
  | child ahead gap _ passed span _ ih =>
      have toFirst := Cursor.offset_le_of_le ahead
      have toBehind := Cursor.offset_le_of_le (Cursor.le_of_lt passed)
      rcases List.mem_append.mp member with literal | member
      · rw [gap.span_eq literal]
        exact Nat.le_refl _
      · rcases List.mem_cons.mp member with rfl | member
        · rw [span]
          exact toFirst
        · exact Nat.le_trans (Nat.le_trans toFirst toBehind) (ih member)

/-- The children that tile some content are in order. -/
theorem Tiling.inOrder
    {children : List (Child ε)}
    (tiling : Tiling left start children stop) :
    InOrder (children.map Child.span) := by
  induction tiling with
  | last _ gap => exact gap.inOrder
  | @child _ start first behind _ _ _ child ahead gap _ passed span rest ih =>
      have toBehind := Cursor.offset_le_of_le (Cursor.le_of_lt passed)
      have later : ∀ other ∈ _, behind.position.offset ≤ (Child.span other).start :=
        fun other member => rest.le_of_mem member
      rw [InOrder, List.map_append, List.map_cons, List.pairwise_append]
      refine ⟨gap.inOrder, List.Pairwise.cons ?_ ih, ?_⟩
      · intro other member
        obtain ⟨child, present, rfl⟩ := List.mem_map.mp member
        rw [span]
        exact later child present
      · intro literal inGap other member
        obtain ⟨text, present, rfl⟩ := List.mem_map.mp inGap
        rw [gap.span_eq present]
        rcases List.mem_cons.mp member with rfl | member
        · rw [span]
          exact Nat.le_refl _
        · obtain ⟨child, present, rfl⟩ := List.mem_map.mp member
          exact Nat.le_trans toBehind (later child present)

/-- The header and the content of a tiled element are in order. -/
theorem Element.Tiled.inOrder
    {origin : Cursor}
    {element : Element ε}
    (tiled : element.Tiled origin) :
    InOrder (element.attributes.map AttributeItem.span) ∧
      InOrder (element.children.map Child.span) := by
  cases tiled with
  | selfClosing _ _ _ header _ _ childless =>
      rw [childless]
      exact ⟨header.inOrder, List.Pairwise.nil⟩
  | closed _ _ _ header _ content => exact ⟨header.inOrder, content.inOrder⟩

end Order

section Reading

variable {level : Nat} {c d : Cursor}

/-- An attribute covers what was read. -/
theorem span_of_reads_attribute
    {item : Attribute Expression}
    (reads : Reads level (.attribute item) c d) :
    c < d ∧ item.span = c.spanTo d := by
  have passes {name : List Char} (spelled : c.textWhile (!isNameDelimiter ·) = name)
      (nonempty : name ≠ []) : c < c.advanceBy name.length := by
    refine Cursor.lt_advanceBy (List.length_pos_iff.mpr nonempty) fun ended => nonempty ?_
    rw [← spelled, Cursor.textWhile, ended]
    rfl
  cases reads with
  | bareAttribute spelled nonempty _ named _ =>
      subst named
      exact ⟨passes spelled nonempty, rfl⟩
  | valuedAttribute spelled nonempty _ equals value =>
      have toEquals := Cursor.le_of_skipBlanks_eat? equals
      have toValue := Cursor.le_trans (Cursor.le_skipBlanks _) value.le
      exact ⟨Cursor.lt_of_lt_of_le (passes spelled nonempty)
        (Cursor.le_trans toEquals toValue), rfl⟩

/-- The entries of a header tile what stands in front of its end. -/
theorem headerTiling_of_reads
    {tail : HeaderTail Expression}
    (reads : Reads level (.headerTail tail) c d) :
    ∃ ending, HeaderTiling c tail.1 ending ∧
      match tail.2 with
      | .content => ending.eat? '>' = some d
      | .selfClosing => ending.eatText? "/>" = some d := by
  generalize phraseEq : Phrase.headerTail tail = phrase at reads
  induction reads generalizing tail with
  | @headerEnd _ c _ closed =>
      cases phraseEq
      exact ⟨c.skipBlanks, .last c.le_skipBlanks (blank_textTo_skipBlanks c), closed⟩
  | @selfClosingEnd _ c _ closed =>
      cases phraseEq
      exact ⟨c.skipBlanks, .last c.le_skipBlanks (blank_textTo_skipBlanks c), closed⟩
  | @spreadItem _ _ _ c _ _ _ opened spread _ _ ih =>
      cases phraseEq
      obtain ⟨ending, tiling, closed⟩ := ih rfl
      have passed := Cursor.lt_of_lt_of_le (Cursor.lt_of_eat? opened) spread.le
      exact ⟨ending, .item c.le_skipBlanks (blank_textTo_skipBlanks c) passed rfl tiling, closed⟩
  | @attributeItem _ _ _ c _ _ item _ _ ih =>
      cases phraseEq
      obtain ⟨ending, tiling, closed⟩ := ih rfl
      obtain ⟨passed, span⟩ := span_of_reads_attribute item
      exact ⟨ending, .item c.le_skipBlanks (blank_textTo_skipBlanks c) passed span tiling, closed⟩
  | _ => cases phraseEq

/-- A header opens a tag of its name, and its entries tile the rest of it. -/
theorem opensTag_of_reads_header
    {header : Header Expression}
    {start : Cursor}
    (opened : start.eat? '<' = some c)
    (reads : Reads level (.header header) c d) :
    ∃ named ending, OpensTag start header.name named ∧
      HeaderTiling named header.attributes ending ∧
      match header.ending with
      | .content => ending.eat? '>' = some d
      | .selfClosing => ending.eatText? "/>" = some d := by
  obtain ⟨next, rfl⟩ := Cursor.eat?_eq_some_iff.mp opened
  obtain ⟨more, ahead⟩ := Cursor.peek?_eq_some_iff.mp next
  have inside : start.advance.rest = more := by
    rw [Cursor.rest_advance, ahead]
    rfl
  have blanks := Cursor.textTo_append_rest start.advance.le_skipBlanks
  have entered := Cursor.le_trans start.le_advance start.advance.le_skipBlanks
  have opens {name : String} {named : Cursor} (reached : start.advance.skipBlanks ≤ named)
      (spelled : start.advance.skipBlanks.rest = name.toList ++ named.rest) :
      OpensTag start name named := by
    refine ⟨Cursor.le_trans entered reached, _, blank_textTo_skipBlanks start.advance, ?_⟩
    apply Cursor.textTo_eq_of_rest
    rw [ahead, ← inside, ← blanks, spelled]
    simp
  cases reads with
  | fragmentHeader closed =>
      refine ⟨_, _, opens (Cursor.le_refl _) rfl, .last (Cursor.le_refl _) ?_, closed⟩
      rw [Cursor.textTo_self]
      exact fun _ none => nomatch none
  | @namedHeader _ _ _ _ _ _ reached named tail =>
      obtain ⟨ending, tiling, closed⟩ := headerTiling_of_reads tail
      exact ⟨_, ending, opens reached (rest_of_readTagName named), tiling, closed⟩

/-- Literal text is what its gap makes. -/
theorem gap_literalText
    {length : Nat}
    {left right : Boundary} :
    Gap left right c (c.advanceBy length)
      (literalText c length left right : List (Child Expression)) := by
  rw [literalText]
  have gap : c.textTo (c.advanceBy length) = c.rest.take length := Cursor.textTo_advanceBy c length
  split
  · rename_i value normal
    refine .text ?_ (gap ▸ normal)
    intro blank
    rw [gap] at blank
    rw [normalizeText_eq_none_iff.mpr (List.all_eq_true.mpr blank)] at normal
    cases normal
  · rename_i none
    refine .blank ?_
    rw [gap]
    exact List.all_eq_true.mp (normalizeText_eq_none_iff.mp none)

/-- A hole ends behind its closing brace. -/
theorem lt_of_reads_hole
    {part : Option Expression}
    (reads : Reads level (.hole part) c d) :
    c < d := by
  cases reads with
  | emptyHole closed => exact Cursor.lt_of_le_of_lt c.le_skipBlanks (Cursor.lt_of_eat? closed)
  | filledHole _ inner closed =>
      have toEnd := Cursor.le_trans (Cursor.le_trans c.le_skipBlanks inner.le)
        (Cursor.le_skipBlanks _)
      exact Cursor.lt_of_le_of_lt toEnd (Cursor.lt_of_eat? closed)

/-- A comment covers its braces. -/
theorem span_of_readComment?
    {comment : Comment}
    {reached : c < d}
    (found : readComment? c = .ok (some ⟨comment, d, reached⟩)) :
    comment.span = c.spanTo d := by
  unfold readComment? at found
  split at found
  · cases found
  · dsimp only at found
    split at found
    · split at found
      · cases found
      · split at found <;> cases found
        rfl
    · cases found

/-- A child in braces covers what was read. -/
theorem span_of_reads_braces
    {child : Child Expression}
    (reads : Reads level (.braces child) c d) :
    c < d ∧ child.span = c.spanTo d ∧ child.boundary = .hole ∧ ¬child.IsText := by
  cases reads with
  | @comment _ _ _ _ reached found =>
      refine ⟨reached, span_of_readComment? found, rfl, ?_⟩
      rintro ⟨_, text⟩
      cases text
  | hole _ _ hole =>
      refine ⟨Cursor.lt_of_le_of_lt c.le_advance (lt_of_reads_hole hole), rfl, rfl, ?_⟩
      rintro ⟨_, text⟩
      cases text

/-- An element covers what was read. -/
theorem span_of_reads_element
    {element : Element Expression}
    (reads : Reads level (.element element) c d) :
    c < d ∧ element.span = c.spanTo d := by
  cases reads with
  | selfClosingElement opened header _ =>
      exact ⟨Cursor.lt_of_lt_of_le (Cursor.lt_of_eat? opened) header.le, rfl⟩
  | closedElement opened header _ content =>
      exact ⟨Cursor.lt_of_lt_of_le (Cursor.lt_of_eat? opened)
        (Cursor.le_trans header.le content.le), rfl⟩

/-- Children tile the content in front of the closing tag. -/
theorem tiling_of_reads
    {name : String}
    {left : Boundary}
    {children : List (Child Expression)}
    (reads : Reads level (.content name left children) c d) :
    ∃ closing, Tiling left c children closing ∧ ClosesTag closing name d := by
  generalize phraseEq : Phrase.content name left children = phrase at reads
  induction reads generalizing left children with
  | @closeContent _ length _ _ c _ _ marked closed =>
      cases phraseEq
      obtain ⟨_, _, closing⟩ := ContentMark.unmarked_of_next marked
      obtain ⟨more, ahead⟩ := ContentMark.exists_of_next_closingTag closing
      rw [← Cursor.rest_advanceBy] at ahead
      exact ⟨c.advanceBy length, .last (c.le_advanceBy length) gap_literalText,
        closesTag_of_readClosingTag ahead closed⟩
  | @elementChild _ length _ _ _ _ c _ _ _ element _ _ ih =>
      cases phraseEq
      obtain ⟨closing, tiling, closed⟩ := ih rfl
      obtain ⟨passed, span⟩ := span_of_reads_element element
      refine ⟨closing, .child (c.le_advanceBy length) gap_literalText ?_ passed span tiling, closed⟩
      rintro ⟨_, text⟩
      cases text
  | @bracesChild _ length _ _ _ _ c _ _ _ braces _ _ ih =>
      cases phraseEq
      obtain ⟨closing, tiling, closed⟩ := ih rfl
      obtain ⟨passed, span, boundary, unliteral⟩ := span_of_reads_braces braces
      refine ⟨closing, .child (c.le_advanceBy length) ?_ unliteral passed span ?_, closed⟩
      · rw [boundary]
        exact gap_literalText
      · rwa [boundary]
  | _ => cases phraseEq

/-- An element that is read is tiled. -/
theorem tiled_of_reads
    {origin : Cursor}
    {element : Element Expression}
    (behind : origin ≤ c)
    (reads : Reads level (.element element) c d) :
    element.Tiled origin := by
  cases reads with
  | selfClosingElement opened header ending =>
      obtain ⟨named, bracket, opens, tiling, closed⟩ := opensTag_of_reads_header opened header
      rw [ending] at closed
      exact .selfClosing behind rfl opens tiling closed rfl rfl
  | closedElement opened header ending content =>
      obtain ⟨named, bracket, opens, tiling, closed⟩ := opensTag_of_reads_header opened header
      rw [ending] at closed
      obtain ⟨closing, children, closes⟩ := tiling_of_reads content
      exact .closed behind rfl opens tiling closed children closes rfl

/--
Every element anywhere in a tree that is read from a source, within any budget and from any place
in the source, is tiled, and its entries and its children are in order.
-/
theorem tiled_of_readElement
    {text : String}
    {budget : Nat}
    {start stop : Cursor}
    {element inner : Element Expression}
    {modes : ModeStack}
    {reached : start < stop}
    (place : .ofText text ≤ start)
    (read : readElement hostDelegate (.initial budget) start = .success element modes stop reached)
    (included : element.Includes inner) :
    inner.Tiled (.ofText text) ∧ InOrder (inner.attributes.map AttributeItem.span) ∧
      InOrder (inner.children.map Child.span) := by
  obtain ⟨-, reads⟩ := reads_of_readElement (by simp [ModeStack.initial]) ⟨reached, read⟩
  have all := reads.all (fun _ _ _ _ => tiled_of_reads) place
  have tiled : inner.Tiled (.ofText text) := all inner included
  exact ⟨tiled, tiled.inOrder⟩

theorem tiled_of_readElement_greeting :
    ∃ budget element modes stop reached,
      readElement hostDelegate (.initial budget) (.ofText "<a x = '1'> hi {$y}<b /></a >") =
          .success element modes stop reached ∧
        element.Tiled (.ofText "<a x = '1'> hi {$y}<b /></a >") ∧
        InOrder (element.attributes.map AttributeItem.span) ∧
        InOrder (element.children.map Child.span) := by
  have written : IsElement "<a x = '1'> hi {$y}<b /></a >".toList greeting :=
    writes_greeting.isReadAs
  obtain ⟨element, -, budget, reads⟩ := written
    (@Cursor.passes_advanceBy (.ofText "<a x = '1'> hi {$y}<b /></a >") _ []
      (List.append_nil _).symm)
  obtain ⟨reached, read⟩ := reads.yields_readElement (ModeStack.admits_initial budget)
  exact ⟨budget, element, _, _, reached, read,
    tiled_of_readElement (Cursor.le_refl _) read .self⟩

end Reading

end EmbeddedMarkup
