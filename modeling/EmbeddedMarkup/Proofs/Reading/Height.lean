import EmbeddedMarkup.Proofs.HostText.Agreement
import EmbeddedMarkup.Proofs.HostText.Tracking
import EmbeddedMarkup.Proofs.Reading.Leading
import EmbeddedMarkup.Proofs.Tree.Height

/-!
# The height of trees that are read

The budget bounds how deep the readers call each other.  A reader that calls itself again for a part
takes a level for it, so the nesting of a tree is bounded by the budget too.

Connectives and accesses are read in a loop, however many there are, and each of them makes a node
above what was read so far.  No level is taken for that.  So trees are as high as chains are long,
on a budget of one level.
-/

namespace EmbeddedMarkup

variable {level : Nat} {c d : Cursor}

/-- What is read within some levels nests no deeper than two nodes for each of them. -/
def Phrase.Fits (level : Nat) : Phrase → Prop
  | .expression _ whole | .spread whole => whole.weigh 0 ≤ 2 * level
  | .operand whole | .primary whole => whole.weigh 0 ≤ 2 * level + 2
  | .continuation _ _ left whole => left.weigh 0 ≤ 2 * level + 2 → whole.weigh 0 ≤ 2 * level + 2
  | .connection _ left form =>
      left.weigh 0 ≤ 2 * level + 2 → ∀ span, Expression.weigh 0 ⟨form, span⟩ ≤ 2 * level + 2
  | .optional _ part | .hole part => ∀ inner ∈ part, inner.weigh 0 ≤ 2 * level
  | .parameters _ => True
  | .arrowFunction form => ∀ span, Expression.weigh 0 ⟨form, span⟩ ≤ 2 * level + 2
  | .entry _ item => ∀ part ∈ item.parts, part.weigh 0 ≤ 2 * level
  | .entries _ _ items => ∀ item ∈ items, ∀ part ∈ item.parts, part.weigh 0 ≤ 2 * level
  | .member _ arguments =>
      ∀ list ∈ arguments, ∀ argument ∈ list, argument.value.weigh 0 ≤ 2 * level
  | .access base form =>
      base.weigh 0 ≤ 2 * level + 2 → ∀ span, Expression.weigh 0 ⟨form, span⟩ ≤ 2 * level + 2
  | .accesses _ base whole => base.weigh 0 ≤ 2 * level + 2 → whole.weigh 0 ≤ 2 * level + 2
  | .element tree => tree.weigh 0 ≤ 2 * level + 1
  | .header whole => ∀ item ∈ whole.attributes, item.expression.weigh 0 ≤ 2 * level + 1
  | .headerTail tail => ∀ item ∈ tail.1, item.expression.weigh 0 ≤ 2 * level + 1
  | .attribute item => item.value.weigh 0 ≤ 2 * level + 1
  | .attributeValue value => value.weigh 0 ≤ 2 * level + 1
  | .braces child => child.weigh 0 ≤ 2 * level + 2
  | .content _ _ children => ∀ child ∈ children, child.weigh 0 ≤ 2 * level + 2

section Forms

variable {form : ExpressionForm Expression} {span : Span}

/-- A node takes one level more than the parts that were read for it. -/
theorem weigh_le_of_parts
    (unmarked : ∀ element, form ≠ .markup element)
    (front : ∀ part ∈ form.front?, part.weigh 0 ≤ 2 * level + 2)
    (inner : ∀ part ∈ form.inner, part.weigh 0 ≤ 2 * level) :
    Expression.weigh 0 ⟨form, span⟩ ≤ 2 * level + 2 :=
  Expression.weigh_le_of_parts unmarked (Nat.succ_pos _) front fun part member =>
    Nat.lt_of_le_of_lt (inner part member) (by omega)

/-- An expression without parts is one node. -/
theorem weigh_leaf
    (unmarked : ∀ element, form ≠ .markup element)
    (front : form.front? = none)
    (inner : form.inner = []) :
    Expression.weigh 0 ⟨form, span⟩ ≤ 1 := by
  rw [Expression.weigh_eq unmarked, front, inner]
  exact Nat.le_refl 1

theorem weigh_constant (name : String) : Expression.weigh 0 ⟨.constant name, span⟩ ≤ 1 :=
  weigh_leaf (by simp) rfl rfl

/-- A name is as high as the constant that it may become. -/
theorem Expression.weigh_nameAsConstant (expression : Expression) :
    expression.nameAsConstant.weigh 0 = expression.weigh 0 := by
  obtain ⟨form, span⟩ := expression
  cases form with
  | bareName name =>
      rw [nameAsConstant, Expression.weigh_eq (by simp), Expression.weigh_eq (by simp)]
      rfl
  | _ => rfl

/-- An access to a member nests no deeper than what it is made to and its arguments allow. -/
theorem weigh_le_of_isMember
    {base : Expression}
    {arguments : Option (List (Argument Expression))}
    (member : ExpressionForm.IsMember base arguments form)
    (front : base.weigh 0 ≤ 2 * level + 2)
    (values : ∀ list ∈ arguments, ∀ argument ∈ list, argument.value.weigh 0 ≤ 2 * level) :
    Expression.weigh 0 ⟨form, span⟩ ≤ 2 * level + 2 := by
  refine weigh_le_of_parts member.ne_markup ?_ ?_
  · simpa [member.front?_eq] using front
  · rw [member.inner_eq]
    cases arguments with
    | none => exact List.forall_mem_nil _
    | some list => exact List.forall_mem_map.mpr (values list rfl)

/-- The values of entries are the values of the arguments that they make. -/
theorem weigh_arguments_le
    {items : List (ArrayItem Expression)}
    (entries : ∀ item ∈ items, ∀ part ∈ item.parts, part.weigh 0 ≤ 2 * level) :
    ∀ argument ∈ items.map ArrayItem.toArgument, argument.value.weigh 0 ≤ 2 * level := by
  intro argument member
  obtain ⟨item, present, rfl⟩ := List.mem_map.mp member
  exact entries item present _ (by simp [ArrayItem.parts, ArrayItem.toArgument])

theorem weigh_getD_nullAt_le
    {part : Option Expression}
    (inside : ∀ inner ∈ part, inner.weigh 0 ≤ 2 * level) :
    (part.getD (HostConstants.nullAt span)).weigh 0 ≤ 2 * level + 1 := by
  cases part with
  | none => exact Nat.le_trans (weigh_constant _) (by omega)
  | some inner => exact Nat.le_succ_of_le (inside inner rfl)

/-- Literal text is one node. -/
theorem weigh_literalText_le
    {start : Cursor}
    {length : Nat}
    {left right : Boundary}
    {child : Child Expression}
    (member : child ∈ literalText start length left right) :
    child.weigh 0 ≤ 2 * level + 2 := by
  unfold literalText at member
  split at member
  · obtain rfl := List.mem_singleton.mp member
    rw [Child.weigh_text]
    omega
  · cases member

end Forms

/-- What the rules derive within some levels fits them. -/
theorem Reads.fits {phrase : Phrase} (reads : Reads level phrase c d) : phrase.Fits level := by
  induction reads with
  | expression _ _ _ operand continuation => exact continuation operand
  | stop => exact fun left => left
  | connect _ _ _ _ _ connection continuation =>
      exact fun left => continuation (connection left _)
  | binary _ right =>
      exact fun left span => weigh_le_of_parts (by simp)
        (by simpa [ExpressionForm.front?] using left)
        (by simpa [Phrase.Fits, ExpressionForm.inner] using right)
  | assign _ _ value =>
      exact fun left span => weigh_le_of_parts (by simp)
        (by simpa [ExpressionForm.front?] using left)
        (by simpa [Phrase.Fits, ExpressionForm.inner] using value)
  | ternary _ _ _ optional last =>
      intro left span
      refine weigh_le_of_parts (by simp) (by simpa [ExpressionForm.front?] using left) ?_
      simpa [ExpressionForm.inner, or_imp, forall_and] using ⟨optional, last⟩
  | absent =>
      intro _ none
      cases none
  | present _ _ _ part =>
      intro inner member
      cases member
      exact part
  | markup _ _ _ element =>
      rw [Phrase.Fits, Expression.weigh_markup]
      exact Nat.succ_le_succ element
  | not _ _ _ _ inner =>
      exact weigh_le_of_parts (by simp) (by simp [ExpressionForm.front?])
        (by simpa [Phrase.Fits, ExpressionForm.inner] using inner)
  | negate _ _ _ _ inner =>
      exact weigh_le_of_parts (by simp) (by simp [ExpressionForm.front?])
        (by simpa [Phrase.Fits, ExpressionForm.inner] using inner)
  | unsigned _ _ _ _ _ _ _ primary accesses => exact accesses primary
  | leaf _ _ leaf =>
      unfold Lexeme.leaf? at leaf
      split at leaf <;> cases leaf <;>
        exact Nat.le_trans (weigh_leaf (by simp) rfl rfl) (by omega)
  | name => exact Nat.le_trans (weigh_leaf (by simp) rfl rfl) (by omega)
  | arrayCall _ _ _ _ _ entries =>
      refine weigh_le_of_parts (by simp) (by simp [ExpressionForm.front?]) ?_
      simpa [ExpressionForm.inner] using fun part item member => entries item member part
  | array _ _ _ entries =>
      refine weigh_le_of_parts (by simp) (by simp [ExpressionForm.front?]) ?_
      simpa [ExpressionForm.inner] using fun part item member => entries item member part
  | function _ _ _ arrow => exact arrow _
  | parenthesized _ _ _ inner => exact Nat.le_add_right_of_le inner
  | noParameters => trivial
  | lastParameter => trivial
  | moreParameters => trivial
  | arrowFunction _ _ _ _ _ body =>
      exact fun span => weigh_le_of_parts (by simp) (by simp [ExpressionForm.front?])
        (by simpa [Phrase.Fits, ExpressionForm.inner] using body)
  | plainEntry _ _ _ _ value => simpa [Phrase.Fits, ArrayItem.parts] using value
  | keyedEntry _ _ _ _ _ key value => simpa [Phrase.Fits, ArrayItem.parts] using ⟨key, value⟩
  | noEntries => exact List.forall_mem_nil _
  | lastEntry _ _ _ _ _ entry =>
      intro item member
      obtain rfl := List.mem_singleton.mp member
      exact entry
  | moreEntries _ _ _ _ _ entry rest => exact List.forall_mem_cons.mpr ⟨entry, rest⟩
  | plainMember =>
      intro _ none
      cases none
  | calledMember _ _ _ entries =>
      intro list member
      cases member
      exact weigh_arguments_le entries
  | memberAccess _ _ member => exact fun base span => weigh_le_of_isMember .ofObject base member
  | entryAccess _ _ _ index =>
      exact fun base span => weigh_le_of_parts (by simp)
        (by simpa [ExpressionForm.front?] using base)
        (by simpa [Phrase.Fits, ExpressionForm.inner] using index)
  | callAccess _ _ _ entries =>
      exact fun base span => weigh_le_of_parts (by simp)
        (by simpa [ExpressionForm.front?] using base)
        (List.forall_mem_map.mpr (weigh_arguments_le entries))
  | staticAccess _ _ _ member => exact fun base span => weigh_le_of_isMember .ofClass base member
  | noAccess =>
      intro base
      rwa [Expression.weigh_nameAsConstant]
  | moreAccesses _ _ access rest => exact fun base => rest (access base _)
  | emptyHole =>
      intro _ none
      cases none
  | filledHole _ _ _ inner =>
      intro part member
      cases member
      exact inner
  | spread _ _ _ inner => exact inner
  | quotedValue =>
      exact Nat.le_trans (weigh_leaf (by simp) rfl rfl) (by omega)
  | holeValue _ _ part => exact weigh_getD_nullAt_le part
  | bareAttribute => exact Nat.le_trans (weigh_constant _) (by omega)
  | valuedAttribute _ _ _ _ _ value => exact value
  | headerEnd => exact List.forall_mem_nil _
  | selfClosingEnd => exact List.forall_mem_nil _
  | spreadItem _ _ _ operand rest =>
      exact List.forall_mem_cons.mpr ⟨Nat.le_succ_of_le operand, rest⟩
  | attributeItem _ _ item rest => exact List.forall_mem_cons.mpr ⟨item, rest⟩
  | fragmentHeader => exact List.forall_mem_nil _
  | namedHeader _ _ tail => exact tail
  | selfClosingElement _ _ _ header =>
      exact Element.weigh_le_iff.mpr
        ⟨fun item member => Nat.succ_le_succ (header item member), List.forall_mem_nil _⟩
  | closedElement _ _ _ _ header content =>
      exact Element.weigh_le_iff.mpr
        ⟨fun item member => Nat.succ_le_succ (header item member), content⟩
  | comment =>
      rw [Phrase.Fits, Child.weigh_comment]
      omega
  | hole _ _ _ part =>
      rw [Phrase.Fits, Child.weigh_hole]
      exact Nat.succ_le_succ (weigh_getD_nullAt_le part)
  | closeContent => exact fun child member => weigh_literalText_le member
  | elementChild _ _ _ element rest =>
      refine List.forall_mem_append.mpr ⟨fun _ member => weigh_literalText_le member,
        List.forall_mem_cons.mpr ⟨?_, rest⟩⟩
      rw [Child.weigh_element]
      exact Nat.le_succ_of_le element
  | bracesChild _ _ _ braces rest =>
      exact List.forall_mem_append.mpr ⟨fun _ member => weigh_literalText_le member,
        List.forall_mem_cons.mpr ⟨braces, rest⟩⟩

/--
Trees nest within the budget.  There are at most two nodes for each level, and two more, on every
way down a document or an expression, where a chain of connectives and accesses is one node.
-/
theorem nesting_le_of_ofText (text : String) (budget : Nat) :
    (∀ document, Document.ofText text budget = .ok document →
        document.nesting ≤ 2 * (budget + 1)) ∧
      ∀ expression, Expression.ofText text budget = .ok expression →
        expression.nesting ≤ 2 * (budget + 1) := by
  constructor
  · intro document read
    refine Nat.succ_le_succ (greatest_le_iff.mpr (List.forall_mem_map.mpr ?_))
    intro element member
    obtain ⟨first, behind, reads⟩ := Document.reads_of_mem_ofText read member
    exact reads.fits
  · intro expression read
    obtain ⟨stop, behind, reads, -⟩ := reads_of_ofText read
    have fits : expression.weigh 0 ≤ 2 * budget := reads.fits
    exact Nat.le_trans fits (by omega)

/-! ## Chains -/

/-- Accesses one behind the other, word by word. -/
def arrowChain : Nat → List (List Char)
  | 0 => []
  | n + 1 => Symbol.arrow.text :: ['b'] :: arrowChain n

/-- The text `$a -> b -> b`, with any number of accesses. -/
def chainText (n : Nat) : String :=
  String.ofList (spaced (['$', 'a'] :: arrowChain n))

/-- Every access in a chain is a node of its own, and takes no level. -/
theorem reads_arrowChain
    {word : List Char}
    {c d : Cursor}
    {n : Nat}
    (stands : Stands (spaced (word :: arrowChain n)) c d)
    (ended : d.rest = []) :
    ∃ middle lexeme behind,
      Stands word c middle ∧ Separated middle.rest ∧
      NextLexeme middle lexeme behind ∧ (lexeme = .endOfInput ∨ lexeme = .symbol .arrow) ∧
      ∀ start base, base.isName = false → ∃ whole,
        Reads 0 (.accesses start base whole) middle d ∧ base.height + n ≤ whole.height := by
  induction n generalizing word c with
  | zero =>
      have next := nextLexeme_endOfInput ended
      refine ⟨d, _, _, stands, ended ▸ separated_nil, next, .inl rfl, ?_⟩
      intro start base proper
      have reads := @Reads.noAccess 0 base _ start _ _ next rfl
      rw [Expression.nameAsConstant_of_isName_eq_false proper] at reads
      exact ⟨base, reads, Nat.le_refl _⟩
  | succ n ih =>
      obtain ⟨middle, front, separated, stands⟩ := Stands.split stands
      obtain ⟨behind, symbol, separated', stands⟩ := Stands.split stands
      have arrow := (spells_symbol .arrow).nextLexeme symbol separated'
      obtain ⟨after, lexeme, _, member, separated'', next, other, more⟩ := ih stands
      have named := (@spells_word ['b'] ⟨rfl, by decide⟩).nextLexeme member separated''
      refine ⟨middle, _, _, front, separated, arrow, .inr rfl, ?_⟩
      intro start base proper
      obtain ⟨whole, reads, higher⟩ := more start ⟨.property base "b" false, start.spanTo after⟩ rfl
      have access : Reads 0 (.access base (memberForm base false ("b", none))) middle after :=
        .memberAccess arrow (.plainMember named next (by rcases other with rfl | rfl <;> simp))
      refine ⟨whole, .moreAccesses access reads, Nat.le_trans ?_ higher⟩
      rw [Expression.height, Expression.height, Expression.weigh_eq (by simp)]
      simp only [ExpressionForm.front?, Option.map_some, Option.getD_some]
      omega

/-- One level is enough for any number of accesses, each of which makes the tree higher. -/
theorem exists_ofText_chain (n : Nat) :
    ∃ expression, Expression.ofText (chainText n) 1 = .ok expression ∧ n < expression.height := by
  have ahead : (Cursor.ofText (chainText n)).rest = spaced (['$', 'a'] :: arrowChain n) ++ [] := by
    simp [Cursor.ofText, chainText]
  have ended := Cursor.rest_advanceBy_length ahead
  obtain ⟨middle, _, _, first, separated, -, -, more⟩ :=
    reads_arrowChain (stands_of_passes (Cursor.passes_advanceBy ahead)) ended
  have spells := @spells_variable ['a'] ⟨rfl, by decide⟩
  have skipped := spells.skipTrivia first separated
  have next := spells.nextLexeme first separated
  have primary := @Reads.leaf 0 _ _ _ _ _ skipped next rfl
  let base : Expression := ⟨.variable "a", (Cursor.ofText (chainText n)).skipBlanks.spanTo middle⟩
  obtain ⟨whole, accesses, higher⟩ := more (Cursor.ofText (chainText n)).skipBlanks base rfl
  have operand := Reads.unsigned skipped (startsMarkup_eq_false skipped next (by simp)) next
    (by simp) (by simp) primary accesses
  have last := nextLexeme_endOfInput ended
  have reads : Reads 1 (.expression 0 whole) _ _ :=
    .expression skipped operand (.stop last (by simp [Lexeme.binding?]))
  refine ⟨whole, reads.ofText_eq_ok last (Nat.le_refl 1), Nat.lt_of_lt_of_le ?_ higher⟩
  rw [Expression.height, Expression.weigh_eq (by simp)]
  simp [ExpressionForm.front?, ExpressionForm.inner]

/-- No multiple of the budget bounds the height of trees: a chain makes them as high as it is
long. -/
theorem not_exists_height_le :
    ¬∃ factor, ∀ text budget,
      (∀ document, Document.ofText text budget = .ok document →
        document.height ≤ factor * (budget + 1)) ∧
      ∀ expression, Expression.ofText text budget = .ok expression →
        expression.height ≤ factor * (budget + 1) := by
  rintro ⟨factor, bounded⟩
  obtain ⟨expression, read, higher⟩ := exists_ofText_chain (factor * 2)
  have low := (bounded _ _).2 expression read
  omega

/-- A document, and an expression that is much higher than it nests. -/
theorem nesting_le_of_ofText_chain :
    (∃ budget document, Document.ofText "<b />" budget = .ok document ∧
      document.elements ≠ [] ∧ document.nesting ≤ 2 * (budget + 1)) ∧
    ∃ expression, Expression.ofText (chainText 1000) 1 = .ok expression ∧
      1000 < expression.height ∧ expression.nesting ≤ 4 := by
  obtain ⟨budget, reads⟩ :=
    @Document.exists_ofText_element "<b />" _ [] _ isElement_emptyTag rfl
      (congrArg Prod.fst (HostScanner.next_of_ended rfl))
  obtain ⟨element, document⟩ := reads budget (Nat.le_refl budget)
  obtain ⟨expression, read, higher⟩ := exists_ofText_chain 1000
  exact ⟨⟨budget, _, document, List.cons_ne_nil _ _,
      (nesting_le_of_ofText "<b />" budget).1 _ document⟩,
    expression, read, higher, (nesting_le_of_ofText (chainText 1000) 1).2 expression read⟩

end EmbeddedMarkup
