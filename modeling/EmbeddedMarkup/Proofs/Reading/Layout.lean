import EmbeddedMarkup.Proofs.HostText.Scanning
import EmbeddedMarkup.Proofs.Reading.Ends
import EmbeddedMarkup.Proofs.Text.Stretch
import EmbeddedMarkup.Proofs.Tree.SpanTree

/-!
# Where the nodes of a tree stand

The nodes of a tree that is read stand one behind the other: each covers a stretch of the text, its
parts stand in this stretch, and what is written behind it stands behind it.  A binary expression,
an access and a call start with their left part, or with the parentheses around it, so the readers
hand down the cursor from which they started.
-/

namespace EmbeddedMarkup

open Cursor

/-- From `c` to `d` the trees stand one behind the other, and the parts of each stand in it. -/
inductive LaidOut : Cursor → Cursor → List SpanTree → Prop
  | nil {c d : Cursor} : c ≤ d → LaidOut c d []
  | cons {c a b d : Cursor} {parts more : List SpanTree} :
      c ≤ a →
      a.Stretch b →
      LaidOut a b parts →
      LaidOut b d more →
      LaidOut c d (.node (a.spanTo b) parts :: more)

variable {level : Nat} {a b c d e first start behind : Cursor} {lexeme : Lexeme}
  {tree : SpanTree} {trees more : List SpanTree} {form : ExpressionForm Expression}

namespace LaidOut

theorem le (laid : LaidOut c d trees) : c ≤ d := by
  induction laid with
  | nil reached => exact reached
  | cons reached stretch _ _ _ ih =>
      exact Cursor.le_trans reached (Cursor.le_trans (Cursor.le_of_lt stretch.lt) ih)

theorem lt (laid : LaidOut c d (tree :: trees)) : c < d := by
  cases laid with
  | cons reached stretch _ rest =>
      exact Cursor.lt_of_le_of_lt reached (Cursor.lt_of_lt_of_le stretch.lt rest.le)

theorem of_le (laid : LaidOut d e trees) (reached : c ≤ d) : LaidOut c e trees := by
  cases laid with
  | nil onward => exact .nil (Cursor.le_trans reached onward)
  | cons onward stretch inside rest =>
      exact .cons (Cursor.le_trans reached onward) stretch inside rest

theorem append (laid : LaidOut c d trees) (rest : LaidOut d e more) :
    LaidOut c e (trees ++ more) := by
  induction laid with
  | nil reached => exact rest.of_le reached
  | cons reached stretch inside _ _ ih => exact .cons reached stretch inside (ih rest)

theorem trans (laid : LaidOut c d trees) (reached : d ≤ e) : LaidOut c e trees := by
  have whole := laid.append (.nil reached)
  rwa [List.append_nil] at whole

/-- A node stands where its span does. -/
theorem node (stretch : a.Stretch b) (inside : LaidOut a b trees) :
    LaidOut a b [.node (a.spanTo b) trees] :=
  .cons a.le_refl stretch inside (.nil b.le_refl)

/-- An expression stands where its form does. -/
theorem expression (stretch : a.Stretch b) (inside : LaidOut a b form.spanTrees) :
    LaidOut a b [Expression.spanTree ⟨form, a.spanTo b⟩] := by
  rw [Expression.spanTree_mk]
  exact node stretch inside

end LaidOut

/-- What stops visibly does not end inside a line break. -/
theorem Cursor.StopsVisibly.stretch (stops : c.StopsVisibly d) : c.Stretch d := by
  obtain ⟨last, ch, inside, passes, visible, -⟩ := stops
  refine ⟨last, ch, inside, passes, ?_⟩
  rintro rfl
  cases visible

/-- The parts of a phrase stand one behind the other. -/
def Phrase.LaysOut (c d : Cursor) : Phrase → Prop
  | .expression _ whole | .operand whole | .primary whole =>
      ∀ ⦃start⦄, skipTrivia c = ⟨.ok (), start⟩ → LaidOut start d [whole.spanTree]
  | .continuation start _ left whole | .accesses start left whole =>
      start ≤ c → LaidOut start c [left.spanTree] → LaidOut start d [whole.spanTree]
  | .connection _ left form | .access left form =>
      ∀ ⦃start⦄, LaidOut start c [left.spanTree] → LaidOut start d form.spanTrees
  | .optional _ part | .hole part => LaidOut c d (part.toList.map Expression.spanTree)
  | .parameters list => LaidOut c d (list.map Parameter.spanTree)
  | .arrowFunction form => LaidOut c d form.spanTrees
  | .entry _ item => LaidOut c d [item.spanTree]
  | .entries _ _ items => LaidOut c d (items.map ArrayItem.spanTree)
  | .member _ arguments => LaidOut c d ((arguments.getD []).map Argument.spanTree)
  | .element whole => LaidOut c d [whole.spanTree]
  | .header whole => LaidOut c d (whole.attributes.map AttributeItem.spanTree)
  | .headerTail tail => LaidOut c d (tail.1.map AttributeItem.spanTree)
  | .attribute item => LaidOut c d [(AttributeItem.named item).spanTree]
  | .attributeValue value | .spread value => LaidOut c d [value.spanTree]
  | .braces child => LaidOut c d [child.spanTree]
  | .content _ _ children => LaidOut c d (children.map Child.spanTree)

section Rules

variable
  {power : Nat}
  {left whole inner : Expression}
  {items : List (ArrayItem Expression)}
  {part : Option Expression}
  {close : Symbol}
  {name : String}
  {span : Span}
  {length : Nat}

/-- Trivia end at one cursor. -/
theorem laidOut_of_skipTrivia
    (skipped : skipTrivia c = ⟨.ok (), first⟩)
    (laid : LaidOut first d trees)
    ⦃start : Cursor⦄
    (skipped' : skipTrivia c = ⟨.ok (), start⟩) :
    LaidOut start d trees := by
  rw [skipped] at skipped'
  cases skipped'
  exact laid

/-- An expression stands behind the trivia in front of it. -/
theorem laidOut_expression
    (reads : Reads level (.expression power whole) c d)
    (laid : (Phrase.expression power whole).LaysOut c d) :
    LaidOut c d [whole.spanTree] := by
  cases reads with
  | expression skipped => exact (laid skipped).of_le (le_of_skipTrivia skipped)

/-- A node that starts behind trivia covers a stretch. -/
theorem stretch_of_skipTrivia
    (stops : c.StopsVisibly d)
    (skipped : skipTrivia c = ⟨.ok (), first⟩)
    (passed : first < d) :
    first.Stretch d :=
  (stops.behind (le_of_skipTrivia skipped) passed).stretch

/-- A node that starts with a token stands behind trivia, and its parts behind the token. -/
theorem laidOut_token
    (skipped : skipTrivia c = ⟨.ok (), first⟩)
    (next : NextLexeme c lexeme behind)
    (more : lexeme ≠ .endOfInput)
    (stops : c.StopsVisibly d)
    (inside : LaidOut behind d trees) :
    LaidOut first d [.node (first.spanTo d) trees] := by
  have passed := lt_of_skipTrivia next skipped more
  exact .node (stretch_of_skipTrivia stops skipped (Cursor.lt_of_lt_of_le passed inside.le))
    (inside.of_le (Cursor.le_of_lt passed))

theorem laidOut_token_expression
    (skipped : skipTrivia c = ⟨.ok (), first⟩)
    (next : NextLexeme c lexeme behind)
    (more : lexeme ≠ .endOfInput)
    (stops : c.StopsVisibly d)
    (inside : LaidOut behind d form.spanTrees) :
    (Phrase.primary ⟨form, first.spanTo d⟩).LaysOut c d := by
  refine laidOut_of_skipTrivia skipped ?_
  rw [Expression.spanTree_mk]
  exact laidOut_token skipped next more stops inside

/-- The form of a lexeme has no parts. -/
theorem Lexeme.spanTrees_leaf (leaf : lexeme.leaf? = some form) :
    form.spanTrees = [] ∧ lexeme ≠ .endOfInput ∧ lexeme.endsPhrase = true := by
  cases lexeme <;> cases leaf <;>
    simp [ExpressionForm.spanTrees, ExpressionForm.map, ExpressionForm.toSpanTrees, endsPhrase]

/-- A parameter is the token of its variable. -/
theorem laidOut_parameter (read : readToken c = ⟨.ok ⟨.variable name, span⟩, d⟩) :
    LaidOut c d [Parameter.spanTree ⟨name, span⟩] := by
  have next : NextLexeme c (.variable name) d := ⟨span, read⟩
  obtain ⟨first, length, skipped, -, -, rfl⟩ := readToken_eq_ok_iff.mp read
  have laid := laidOut_token skipped next (by simp) (next.stopsVisibly rfl) (.nil d.le_refl)
  exact laid.of_le (le_of_skipTrivia skipped)

/-- An argument has the parts of the entry that it is read as. -/
theorem map_spanTree_toArgument (reads : Reads level (.entries close false items) c d) :
    (items.map ArrayItem.toArgument).map Argument.spanTree = items.map ArrayItem.spanTree := by
  rw [List.map_map]
  refine List.map_congr_left fun item member => ?_
  obtain ⟨key, value, unpack, span⟩ := item
  obtain rfl : key = none := key_eq_none_of_reads_entries reads _ member
  rfl

/-- The null that an empty hole stands for covers the hole. -/
theorem laidOut_getD_nullAt
    (stretch : c.Stretch d)
    (laid : LaidOut c d (part.toList.map Expression.spanTree)) :
    LaidOut c d [(part.getD (HostConstants.nullAt (c.spanTo d))).spanTree] := by
  cases part with
  | none => exact .expression stretch laid
  | some inner => exact laid

/-- Literal text ends in front of a mark, so it ends inside no line break. -/
theorem laidOut_literalText
    {left right : Boundary}
    {mark : ContentMark}
    (found : ContentMark.next c.rest = (length, mark))
    (more : mark ≠ .endOfInput) :
    LaidOut c (c.advanceBy length)
      ((literalText c length left right : List (Child Expression)).map Child.spanTree) := by
  obtain ⟨fits, -, marked⟩ := ContentMark.unmarked_of_next found
  have marks := startsMark_of_next marked more
  unfold literalText
  split
  · rename_i value normal
    rw [List.map_singleton, Child.spanTree_text]
    have nonempty : c.rest.take length ≠ [] := by
      intro nothing
      rw [nothing] at normal
      cases normal
    have passes := c.passes_take fits
    rw [← List.dropLast_concat_getLast nonempty] at passes
    obtain ⟨last, front, passes⟩ := passes_append.mp passes
    refine .node ⟨last, _, front.le, passes, fun _ feed => ?_⟩ (.nil (c.le_advanceBy length))
    rw [peek?, rest_advanceBy] at feed
    rcases marks with tag | brace
    · rw [tag] at feed
      cases feed
    · rw [brace] at feed
      cases feed
  · exact .nil (c.le_advanceBy length)

end Rules

/-- The nodes of a tree that is read stand one behind the other. -/
theorem Reads.laysOut
    {phrase : Phrase}
    (reads : Reads level phrase c d) :
    phrase.LaysOut c d := by
  induction reads with
  | expression skipped operand _ operand' continuation' =>
      refine laidOut_of_skipTrivia skipped ?_
      exact continuation' (operand.starts_operand.le_of_skipTrivia skipped) (operand' skipped)
  | stop => exact fun _ laid => laid
  | connect next _ _ connection _ connection' continuation' =>
      intro reached laid
      have stops := connection.stopsVisibly rfl
      have onward := Cursor.le_trans reached next.le
      exact continuation' (Cursor.le_trans onward connection.le)
        (.expression (stops.of_le onward).stretch (connection' (laid.trans next.le)))
  | binary operand operand' =>
      exact fun _ laid => laid.append (laidOut_expression operand operand')
  | assign _ value value' => exact fun _ laid => laid.append (laidOut_expression value value')
  | ternary _ next ifFalse ifTrue' ifFalse' =>
      intro start laid
      rw [ExpressionForm.spanTrees_ternary]
      exact laid.append ((ifTrue'.trans next.le).append (laidOut_expression ifFalse ifFalse'))
  | absent => exact .nil (Cursor.le_refl _)
  | present _ _ part part' => exact laidOut_expression part part'
  | markup skipped _ element element' =>
      refine laidOut_of_skipTrivia skipped ?_
      exact .expression (element.stopsVisibly rfl).stretch element'
  | not skipped _ next inner inner' | negate skipped _ next inner inner' =>
      exact laidOut_token_expression skipped next (by simp) ((inner.stopsVisibly rfl).of_le next.le)
        (laidOut_expression inner inner')
  | unsigned skipped _ _ _ _ primary _ primary' accesses' =>
      refine laidOut_of_skipTrivia skipped ?_
      exact accesses' (primary.starts_primary.le_of_skipTrivia skipped) (primary' skipped)
  | @leaf _ lexeme form _ _ _ skipped next leaf =>
      obtain ⟨partless, more, ends⟩ := Lexeme.spanTrees_leaf leaf
      refine laidOut_token_expression skipped next more (next.stopsVisibly ends) ?_
      rw [partless]
      exact .nil (Cursor.le_refl _)
  | name skipped next _ =>
      exact laidOut_token_expression skipped next (by simp) (next.stopsVisibly rfl)
        (.nil (Cursor.le_refl _))
  | arrayCall skipped next _ opened entries entries' =>
      have stops := entries.stopsVisibly rfl
      refine laidOut_token_expression skipped next (by simp)
        (stops.of_le (Cursor.le_trans next.le opened.le)) ?_
      rw [ExpressionForm.spanTrees_array]
      exact LaidOut.of_le entries' opened.le
  | array skipped next entries entries' =>
      have stops := entries.stopsVisibly rfl
      refine laidOut_token_expression skipped next (by simp) (stops.of_le next.le) ?_
      rw [ExpressionForm.spanTrees_array]
      exact entries'
  | function skipped next function function' =>
      exact laidOut_token_expression skipped next (by simp)
        ((function.stopsVisibly rfl).of_le next.le) function'
  | parenthesized next inner closed inner' =>
      intro start skipped
      have passed := lt_of_skipTrivia next skipped (by simp)
      exact ((laidOut_expression inner inner').of_le (Cursor.le_of_lt passed)).trans closed.le
  | noParameters next => exact .nil next.le
  | lastParameter _ _ maybe identifier read _ closed =>
      exact ((laidOut_parameter read).of_le (Cursor.le_trans maybe.le identifier.le)).trans
        closed.le
  | moreParameters _ _ maybe identifier read comma _ list' =>
      exact ((laidOut_parameter read).of_le (Cursor.le_trans maybe.le identifier.le)).append
        (list'.of_le comma.le)
  | arrowFunction next _ arrow body list' body' =>
      exact (list'.of_le next.le).append ((laidOut_expression body body').of_le arrow.le)
  | plainEntry skipped ellipsis value _ value' =>
      have stops := (value.stopsVisibly rfl).of_le ellipsis.le
      rw [Phrase.LaysOut, ArrayItem.spanTree_mk]
      refine LaidOut.of_le ?_ (le_of_skipTrivia skipped)
      cases ellipsis with
      | taken next =>
          exact laidOut_token skipped next (by simp) stops (laidOut_expression value value')
      | left =>
          have laid := value' skipped
          exact .node (stretch_of_skipTrivia stops skipped laid.lt) laid
  | keyedEntry skipped _ key next value key' value' =>
      have laid := (key' skipped).append ((laidOut_expression value value').of_le next.le)
      have stops := (value.stopsVisibly rfl).of_le (Cursor.le_trans key.le next.le)
      rw [Phrase.LaysOut, ArrayItem.spanTree_mk]
      exact LaidOut.of_le (.node (stretch_of_skipTrivia stops skipped laid.lt) laid)
        (le_of_skipTrivia skipped)
  | noEntries next => exact .nil next.le
  | lastEntry _ _ _ _ closed item' => exact LaidOut.trans item' closed.le
  | moreEntries _ _ _ comma _ item' items' =>
      exact LaidOut.append item' (items'.of_le comma.le)
  | plainMember next _ _ => exact .nil next.le
  | calledMember next opened entries entries' =>
      rw [Phrase.LaysOut, Option.getD_some, map_spanTree_toArgument entries]
      exact LaidOut.of_le entries' (Cursor.le_trans next.le opened.le)
  | memberAccess next _ member' =>
      intro start laid
      rw [ExpressionForm.spanTrees_memberForm]
      exact laid.append (member'.of_le next.le)
  | entryAccess next _ closed index' =>
      intro start laid
      rw [ExpressionForm.spanTrees_entry]
      exact laid.append ((index'.of_le next.le).trans closed.le)
  | callAccess next _ entries entries' =>
      intro start laid
      rw [ExpressionForm.spanTrees_call, map_spanTree_toArgument entries]
      exact laid.append (entries'.of_le next.le)
  | staticAccess next _ _ member' =>
      intro start laid
      rw [ExpressionForm.spanTrees_staticMemberForm]
      exact laid.append (member'.of_le next.le)
  | noAccess =>
      intro _ laid
      rwa [Expression.spanTree_nameAsConstant]
  | moreAccesses access _ access' accesses' =>
      intro reached laid
      have stops := access.stopsVisibly rfl
      exact accesses' (Cursor.le_trans reached access.le)
        (.expression (stops.of_le reached).stretch (access' laid))
  | emptyHole closed => exact .nil (le_of_skipBlanks_eat? closed)
  | filledHole _ inner closed inner' =>
      exact ((laidOut_expression inner inner').of_le (Cursor.le_skipBlanks _)).trans
        (le_of_skipBlanks_eat? closed)
  | spread dots inner closed inner' =>
      have front := Cursor.le_trans (Cursor.le_skipBlanks _) (le_of_eatText? dots)
      exact ((laidOut_expression inner inner').of_le
        (Cursor.le_trans front (Cursor.le_skipBlanks _))).trans (le_of_skipBlanks_eat? closed)
  | @quotedValue level _ _ _ isQuote next closed =>
      have stops := (@Reads.quotedValue level _ _ _ isQuote next closed).stopsVisibly rfl
      exact .expression stops.stretch (.nil (Cursor.le_of_lt stops.lt))
  | holeValue _ hole hole' =>
      have stops := (hole.stopsVisibly rfl).of_le (Cursor.le_advance _)
      exact laidOut_getD_nullAt stops.stretch (hole'.of_le (Cursor.le_advance _))
  | bareAttribute spelled nonempty valid reached bare =>
      subst reached
      have stretch := (stopsVisibly_attributeName spelled nonempty valid).stretch
      exact .node stretch (.expression stretch (.nil (Cursor.le_advanceBy _ _)))
  | valuedAttribute spelled nonempty valid equals value value' =>
      have front := Cursor.le_trans (Cursor.le_advanceBy _ _)
        (Cursor.le_trans (le_of_skipBlanks_eat? equals) (Cursor.le_skipBlanks _))
      exact .node ((value.stopsVisibly rfl).of_le front).stretch
        (LaidOut.of_le value' front)
  | headerEnd closed => exact .nil (le_of_skipBlanks_eat? closed)
  | selfClosingEnd closed =>
      exact .nil (Cursor.le_trans (Cursor.le_skipBlanks _) (le_of_eatText? closed))
  | spreadItem opened spread _ spread' rest' =>
      have front := Cursor.le_of_lt (lt_of_eat? opened)
      exact .cons (Cursor.le_skipBlanks _)
        ((spread.stopsVisibly rfl).of_le front).stretch (LaidOut.of_le spread' front) rest'
  | attributeItem _ _ item' rest' =>
      exact LaidOut.append (LaidOut.of_le item' (Cursor.le_skipBlanks _)) rest'
  | fragmentHeader closed => exact .nil (le_of_skipBlanks_eat? closed)
  | @namedHeader _ _ _ _ _ _ reached _ _ rest' =>
      exact LaidOut.of_le rest' (Cursor.le_trans (Cursor.le_skipBlanks _) reached)
  | selfClosingElement opened header _ header' =>
      have front := Cursor.le_of_lt (lt_of_eat? opened)
      rw [Phrase.LaysOut, Element.selfClosing, Element.spanTree_mk, List.map_nil, List.append_nil]
      exact .node ((header.stopsVisibly rfl).of_le front).stretch
        (LaidOut.of_le header' front)
  | closedElement opened header _ content header' content' =>
      have front := Cursor.le_of_lt (lt_of_eat? opened)
      rw [Phrase.LaysOut, Element.spanTree_mk]
      exact .node ((content.stopsVisibly rfl).of_le (Cursor.le_trans front header.le)).stretch
        ((LaidOut.of_le header' front).append content')
  | @comment level comment _ _ reached found =>
      have stops := (@Reads.comment level _ _ _ _ found).stopsVisibly rfl
      rw [Phrase.LaysOut, Child.spanTree_comment, span_of_readComment? found]
      exact .node stops.stretch (.nil (Cursor.le_of_lt reached))
  | hole _ _ hole hole' =>
      have stretch := ((hole.stopsVisibly rfl).of_le (Cursor.le_advance _)).stretch
      rw [Phrase.LaysOut, Child.spanTree_hole]
      exact .node stretch (laidOut_getD_nullAt stretch (hole'.of_le (Cursor.le_advance _)))
  | @closeContent _ _ _ _ _ _ reached found _ =>
      exact (laidOut_literalText found (by decide)).trans (Cursor.le_of_lt reached)
  | elementChild found _ _ element' rest' =>
      rw [Phrase.LaysOut, List.map_append, List.map_cons, Child.spanTree_element]
      exact (laidOut_literalText found (by decide)).append (LaidOut.append element' rest')
  | bracesChild found _ _ braces' rest' =>
      rw [Phrase.LaysOut, List.map_append, List.map_cons]
      exact (laidOut_literalText found (by decide)).append (LaidOut.append braces' rest')

end EmbeddedMarkup
