import EmbeddedMarkup.Proofs.HostText.Tracking
import EmbeddedMarkup.Proofs.Markup.Copy

/-!
# Well-formed trees

Every element that stands anywhere in a tree keeps the rules of markup: its name is made of
segments, its closing tag repeats that name, a fragment has no attributes, attributes have names,
and comments are block comments.  An element takes one level of nesting, so no path through a tree
passes more elements than there were levels.
-/

namespace EmbeddedMarkup

variable {level budget : Nat} {text : String} {name : List Char} {element : Element Expression}
  {c d : Cursor}

/-! ## Names and comments -/

/-- A word that may name an attribute. -/
structure IsAttributeWord (name : List Char) : Prop where
  nonempty : name ≠ []
  chars : ∀ ch ∈ name, isMarkupNameChar ch = true
  first : ∀ ch, name.head? = some ch → ch.isDigit = false ∧ ch ≠ '-'

/-- A name in which no fault is found is made of the right characters. -/
theorem IsAttributeName.isAttributeWord (isName : IsAttributeName name) : IsAttributeWord name := by
  obtain ⟨nonempty, valid⟩ := isName
  unfold attributeNameFault? at valid
  split at valid
  · cases valid
  · rename_i noDigit
    split at valid
    · cases valid
    · rename_i plain
      simp only [Bool.or_eq_true, not_or, Bool.not_eq_true', Bool.not_eq_false,
        List.all_eq_true, decide_eq_true_eq] at plain
      refine ⟨nonempty, plain.2, fun ch first => ⟨?_, ?_⟩⟩
      · simpa [first] using noDigit
      · rintro rfl
        exact plain.1 first

/-- A block comment with its delimiters, the second of which ends it first. -/
def IsBlockComment (text : List Char) : Prop :=
  ∃ body, IsCommentBody body ∧ text = "/*".toList ++ body ++ "*/".toList

/-- What is read as a comment in braces is a block comment. -/
theorem isBlockComment_of_readComment?
    {comment : Comment}
    {reached : c < d}
    (found : readComment? c = .ok (some ⟨comment, d, reached⟩)) :
    IsBlockComment comment.text.toList := by
  obtain ⟨-, starts, tail, closed, -, rfl⟩ := readComment?_eq_some_iff.mp found
  obtain ⟨more, spelled⟩ := List.isPrefixOf_iff_prefix.mp starts
  have ahead : c.advance.skipBlanks.rest = '/' :: '*' :: more := spelled.symm
  rw [ahead] at closed
  obtain ⟨body, rest, isBody, whole, rfl⟩ := blockCommentTail?_eq_some_iff.mp closed
  have whole : more = body ++ '*' :: '/' :: rest := whole
  refine ⟨body, isBody, ?_⟩
  rw [String.toList_ofList, ahead, whole]
  have front : '/' :: '*' :: (body ++ '*' :: '/' :: rest) =
      ("/*".toList ++ body ++ "*/".toList) ++ rest := by simp
  rw [front, List.take_left' (by simp)]

/-- What continues a tag name goes on with its segment, and then with others. -/
theorem ContinuesTagName.exists_segments
    {text : List Char}
    (continues : ContinuesTagName text) :
    ∃ chars rest, text = chars ++ rest ∧ (∀ ch ∈ chars, isMarkupNameChar ch = true) ∧
      (rest = [] ∨ ∃ more, rest = '.' :: more ∧ IsDotted more) := by
  induction continues with
  | nil => exact ⟨[], [], rfl, List.forall_mem_nil _, .inl rfl⟩
  | char isChar _ ih =>
      obtain ⟨chars, rest, rfl, all, others⟩ := ih
      exact ⟨_ :: chars, rest, rfl, List.forall_mem_cons.mpr ⟨isChar, all⟩, others⟩
  | @point ch _ start _ ih =>
      obtain ⟨chars, rest, rfl, all, others⟩ := ih
      have isChar : isMarkupNameChar ch = true := by
        simp [isMarkupNameChar, isIdentifierChar_of_isIdentifierStart start]
      have segment : IsSegment (ch :: chars) := ⟨start, List.forall_mem_cons.mpr ⟨isChar, all⟩⟩
      refine ⟨[], _, rfl, List.forall_mem_nil _, .inr ⟨_, rfl, ?_⟩⟩
      rcases others with rfl | ⟨more, rfl, dotted⟩
      · rw [List.append_nil]
        exact .segment segment
      · exact .point segment dotted

/-- A tag name is made of segments. -/
theorem IsTagName.isDotted (isName : IsTagName name) : IsDotted name := by
  obtain ⟨start, continues⟩ := isName
  obtain ⟨chars, rest, rfl, all, others⟩ := continues.exists_segments
  cases chars with
  | nil => rcases others with rfl | ⟨more, rfl, -⟩ <;> cases start
  | cons ch chars =>
      have segment : IsSegment (ch :: chars) := ⟨start, all⟩
      rcases others with rfl | ⟨more, rfl, dotted⟩
      · rw [List.append_nil]
        exact .segment segment
      · exact .point segment dotted

/-! ## Elements -/

/-- An element keeps the rules of markup, apart from what stands inside it. -/
structure Element.IsWellFormed (element : Element Expression) : Prop where
  name : element.name = "" ∨ IsDotted element.name.toList
  /-- An element without a closing tag is no fragment and has no content. -/
  closing :
    element.closingName = none ∧ element.name ≠ "" ∧ element.children = [] ∨
      element.closingName = some element.name
  fragment : element.name = "" → element.attributes = []
  attributes : ∀ item, .named item ∈ element.attributes → IsAttributeWord item.name.toList
  comments : ∀ comment, .comment comment ∈ element.children → IsBlockComment comment.text.toList

/-- The header of a fragment is empty and leads to content; any other one has a name. -/
theorem header_cases_of_reads
    {header : Header Expression}
    (reads : Reads level (.header header) c d) :
    (header.name = "" ∧ header.attributes = [] ∧ header.ending = .content) ∨
      header.name ≠ "" ∧ IsDotted header.name.toList := by
  cases reads with
  | fragmentHeader => exact .inl ⟨rfl, rfl, rfl⟩
  | namedHeader named _ =>
      have isName := isTagName_of_readTagName named
      refine .inr ⟨?_, isName.isDotted⟩
      rintro rfl
      cases isName.start

/-- Every element that is read keeps the rules of markup. -/
theorem isWellFormed_of_reads (reads : Reads level (.element element) c d) :
    element.IsWellFormed := by
  cases reads with
  | @selfClosingElement _ header _ _ _ _ reads ending =>
      have attributes (item : Attribute Expression) (member : .named item ∈ header.attributes) :
          IsAttributeWord item.name.toList :=
        (isAttributeName_of_reads_header reads member).isAttributeWord
      rcases header_cases_of_reads reads with ⟨-, -, content⟩ | ⟨named, dotted⟩
      · rw [content] at ending
        cases ending
      · exact ⟨.inr dotted, .inl ⟨rfl, named, rfl⟩, fun empty => absurd empty named,
          attributes, fun _ none => nomatch none⟩
  | @closedElement _ header children _ _ _ _ _ reads _ content =>
      have attributes (item : Attribute Expression) (member : .named item ∈ header.attributes) :
          IsAttributeWord item.name.toList :=
        (isAttributeName_of_reads_header reads member).isAttributeWord
      have comments (comment : Comment) (member : .comment comment ∈ children) :
          IsBlockComment comment.text.toList := by
        rcases child_of_reads content _ _ _ rfl _ member with ⟨_, text, -⟩ | ⟨_, element⟩ |
          ⟨_, _, braces⟩
        · cases text
        · cases element
        · cases braces with
          | comment found => exact isBlockComment_of_readComment? found
      have rules := header_cases_of_reads reads
      refine ⟨rules.imp And.left And.right, .inr rfl, fun empty => ?_, attributes, comments⟩
      rcases rules with ⟨-, none, -⟩ | ⟨named, -⟩
      · exact none
      · exact absurd empty named

/-! ## Nesting -/

/-- No path downwards from the element passes more than `depth` elements. -/
def Element.NestsWithin (depth : Nat) (element : Element Expression) : Prop :=
  ∀ path, element.Path path → path.length ≤ depth

/-- No path downwards from the expression passes more than `depth` elements. -/
def Expression.NestsWithin (depth : Nat) (expression : Expression) : Prop :=
  ∀ path, expression.Path path → path.length ≤ depth

/-- An element nests one level deeper than what stands in it. -/
theorem Element.nestsWithin_succ
    {depth : Nat}
    (items : ∀ item ∈ element.attributes, item.expression.All (NestsWithin depth))
    (children : ∀ child ∈ element.children, child.All (NestsWithin depth)) :
    element.NestsWithin (depth + 1) := by
  intro path passes
  cases passes with
  | here => exact Nat.succ_le_succ (Nat.zero_le depth)
  | item member passes =>
      rw [List.length_cons, Nat.add_le_add_iff_right]
      rcases passes.exists_includes with rfl | ⟨inner, included, passes⟩
      · exact Nat.zero_le depth
      · exact items _ member inner included _ passes
  | child member passes =>
      rw [List.length_cons, Nat.add_le_add_iff_right]
      rcases passes.exists_includes with rfl | ⟨inner, included, passes⟩
      · exact Nat.zero_le depth
      · exact children _ member inner included _ passes

/-- Elements that are read within some levels nest within them. -/
theorem nestsWithin_of_reads (reads : Reads level (.element element) c d) :
    element.NestsWithin level := by
  induction level generalizing element c d with
  | zero => cases reads
  | succ level ih =>
      have inside (inner : Nat) (element : Element Expression) (first behind : Cursor)
          (fits : inner ≤ level) (_ : c ≤ first)
          (reads : Reads inner (.element element) first behind) : element.NestsWithin level :=
        ih (reads.mono fits)
      cases reads with
      | selfClosingElement opened header _ =>
          have opened := Cursor.le_of_lt (Cursor.lt_of_eat? opened)
          have items := header.all_within inside (Nat.le_refl _) opened
          exact Element.nestsWithin_succ items (List.forall_mem_nil _)
      | closedElement opened header _ content =>
          have opened := Cursor.le_of_lt (Cursor.lt_of_eat? opened)
          have items := header.all_within inside (Nat.le_refl _) opened
          have children := content.all_within inside (Nat.le_refl _)
            (Cursor.le_trans opened header.le)
          exact Element.nestsWithin_succ items children

/-! ## Documents and expressions -/

/--
In a document and in an expression every element keeps the rules of markup, at any depth, and no
path passes more elements than the budget allows.
-/
theorem isWellFormed_of_ofText (text : String) (budget : Nat) :
    (∀ document, Document.ofText text budget = .ok document → ∀ element ∈ document.elements,
      element.All Element.IsWellFormed ∧ element.NestsWithin budget) ∧
    ∀ expression, Expression.ofText text budget = .ok expression →
      expression.All Element.IsWellFormed ∧ expression.NestsWithin budget := by
  constructor
  · intro document read element member
    obtain ⟨first, behind, reads⟩ := Document.reads_of_mem_ofText read member
    exact ⟨reads.all (fun _ _ _ _ _ => isWellFormed_of_reads) (Cursor.le_refl first),
      nestsWithin_of_reads reads⟩
  · intro expression read
    obtain ⟨stop, behind, reads, -⟩ := reads_of_ofText read
    refine ⟨reads.all (fun _ _ _ _ _ => isWellFormed_of_reads) (Cursor.le_refl _), ?_⟩
    have nests : expression.All (Element.NestsWithin budget) :=
      reads.all_within (fun _ _ _ _ fits _ reads => nestsWithin_of_reads (reads.mono fits))
        (Nat.le_refl budget) (Cursor.le_refl _)
    intro path passes
    rcases passes.exists_includes with rfl | ⟨inner, included, passes⟩
    · exact Nat.zero_le budget
    · exact nests inner included path passes

/-- The elements of a text that is a document and an expression. -/
theorem isWellFormed_of_ofText_greeting :
    ∃ budget element expression,
      Document.ofText "<a x = '1'> hi {$y}<b /></a >" budget = .ok ⟨[element]⟩ ∧
        Expression.ofText "<a x = '1'> hi {$y}<b /></a >" budget = .ok expression ∧
        element.All Element.IsWellFormed ∧ element.NestsWithin budget ∧
        expression.All Element.IsWellFormed ∧ expression.NestsWithin budget := by
  have written : IsElement "<a x = '1'> hi {$y}<b /></a >".toList greeting :=
    writes_greeting.isReadAs
  obtain ⟨least, document⟩ :=
    @Document.exists_ofText_element "<a x = '1'> hi {$y}<b /></a >" _ [] _ written
      (List.append_nil _).symm (congrArg Prod.fst (HostScanner.next_of_ended rfl))
  obtain ⟨expression, least', -, alone⟩ :=
    ((@isOperand_markup _ _ default written).leads.mono (Nat.zero_le _)).ofText_eq_ok
  obtain ⟨element, document⟩ := document (max least least') (Nat.le_max_left least least')
  have alone := alone (max least least') (Nat.le_max_right least least')
  obtain ⟨documents, expressions⟩ :=
    isWellFormed_of_ofText "<a x = '1'> hi {$y}<b /></a >" (max least least')
  obtain ⟨rules, nests⟩ := documents _ document element List.mem_cons_self
  obtain ⟨rules', nests'⟩ := expressions _ alone
  exact ⟨_, element, expression, document, alone, rules, nests, rules', nests'⟩

end EmbeddedMarkup
