import EmbeddedMarkup.Proofs.Reading.Order
import EmbeddedMarkup.Proofs.Tree.Parts

/-!
# Every element of a tree was read

An element that stands anywhere in what was read, in content, in a header or in a host
expression, has a derivation of its own.  So a property that holds of every element that is read
holds everywhere in a tree.
-/

namespace EmbeddedMarkup

variable {Holds : Element Expression → Prop}

/--
The property holds of all elements in a phrase, given that it does in what the phrase was told
beforehand.
-/
def Phrase.All (Holds : Element Expression → Prop) : Phrase → Prop
  | .expression _ whole | .operand whole | .primary whole | .attributeValue whole
  | .spread whole => whole.All Holds
  | .continuation _ _ left whole => left.All Holds → whole.All Holds
  | .connection _ left form => left.All Holds → ∀ span, Expression.All Holds ⟨form, span⟩
  | .optional _ part | .hole part => ∀ inner ∈ part, Expression.All Holds inner
  | .parameters _ => True
  | .arrowFunction form => ∀ span, Expression.All Holds ⟨form, span⟩
  | .entry _ item => ∀ part ∈ item.parts, Expression.All Holds part
  | .entries _ _ items => ∀ item ∈ items, ∀ part ∈ item.parts, Expression.All Holds part
  | .member _ arguments =>
      ∀ list ∈ arguments, ∀ argument ∈ list, Expression.All Holds argument.value
  | .access base form => base.All Holds → ∀ span, Expression.All Holds ⟨form, span⟩
  | .accesses _ base whole => base.All Holds → whole.All Holds
  | .element tree => tree.All Holds
  | .header whole => ∀ item ∈ whole.attributes, item.expression.All Holds
  | .headerTail tail => ∀ item ∈ tail.1, item.expression.All Holds
  | .attribute item => item.value.All Holds
  | .braces child => child.All Holds
  | .content _ _ children => ∀ child ∈ children, child.All Holds

/-- The values of entries are the values of the arguments that they make. -/
theorem all_arguments_of_all_entries
    {items : List (ArrayItem Expression)}
    (entries : ∀ item ∈ items, ∀ part ∈ item.parts, Expression.All Holds part) :
    ∀ argument ∈ items.map ArrayItem.toArgument, Expression.All Holds argument.value := by
  intro argument member
  obtain ⟨item, present, rfl⟩ := List.mem_map.mp member
  exact entries item present _ (by simp [ArrayItem.parts, ArrayItem.toArgument])

/-- Literal text includes no elements. -/
theorem all_literalText
    {start : Cursor}
    {length : Nat}
    {left right : Boundary}
    {child : Child Expression}
    (member : child ∈ literalText start length left right) :
    child.All Holds := by
  unfold literalText at member
  split at member
  · obtain rfl := List.mem_singleton.mp member
    exact Child.all_text
  · cases member

theorem all_nullAt (span : Span) : Expression.All Holds (HostConstants.nullAt span) :=
  Expression.all_of_parts (by simp) (by simp [ExpressionForm.parts])

theorem all_getD_nullAt
    {part : Option Expression}
    {span : Span}
    (inside : ∀ inner ∈ part, Expression.All Holds inner) :
    Expression.All Holds (part.getD (HostConstants.nullAt span)) := by
  cases part with
  | none => exact all_nullAt span
  | some inner => exact inside inner rfl

theorem all_of_isMember
    {base : Expression}
    {arguments : Option (List (Argument Expression))}
    {form : ExpressionForm Expression}
    {span : Span}
    (member : ExpressionForm.IsMember base arguments form)
    (front : base.All Holds)
    (values : ∀ list ∈ arguments, ∀ argument ∈ list, Expression.All Holds argument.value) :
    Expression.All Holds ⟨form, span⟩ := by
  refine Expression.all_of_parts member.ne_markup ?_
  rw [member.parts_eq]
  refine List.forall_mem_cons.mpr ⟨front, ?_⟩
  cases arguments with
  | none => exact List.forall_mem_nil _
  | some list => exact List.forall_mem_map.mpr (values list rfl)

/--
A property of every element that is read behind `origin` within some levels holds of all elements in
a phrase that is read behind `origin` within these levels.
-/
theorem Reads.all_within
    {origin : Cursor}
    {bound : Nat}
    (holds : ∀ level element c d, level ≤ bound → origin ≤ c →
      Reads level (.element element) c d → Holds element)
    {level : Nat}
    {phrase : Phrase}
    {start stop : Cursor}
    (reads : Reads level phrase start stop)
    (fits : level ≤ bound)
    (behind : origin ≤ start) :
    phrase.All Holds := by
  induction reads with
  | expression _ operand _ ihOperand ihContinuation =>
      have inner := Nat.le_of_succ_le fits
      exact ihContinuation inner (Cursor.le_trans behind operand.le) (ihOperand inner behind)
  | stop => exact fun left => left
  | connect next _ _ connection _ ihConnection ihContinuation =>
      have toConnection := Cursor.le_trans behind next.le
      exact fun left => ihContinuation fits (Cursor.le_trans toConnection connection.le)
        (ihConnection fits toConnection left _)
  | binary _ ih =>
      intro left span
      have right : Expression.All Holds _ := ih fits behind
      exact Expression.all_of_parts (by simp) (by simp [ExpressionForm.parts, left, right])
  | assign _ _ ih =>
      intro left span
      have right : Expression.All Holds _ := ih fits behind
      exact Expression.all_of_parts (by simp) (by simp [ExpressionForm.parts, left, right])
  | ternary optional colon _ ihOptional ihLast =>
      intro left span
      have toColon := Cursor.le_trans behind optional.le
      have last := ihLast fits (Cursor.le_trans toColon colon.le)
      refine Expression.all_of_parts (by simp) ?_
      simpa [ExpressionForm.parts, or_imp, forall_and] using ⟨left, ihOptional fits behind, last⟩
  | absent =>
      intro _ none
      cases none
  | present _ _ _ ih =>
      intro inner member
      cases member
      exact ih fits behind
  | markup skipped _ _ ih =>
      exact Expression.all_markup (ih fits (Cursor.le_trans behind (le_of_skipTrivia skipped)))
  | not _ _ next _ ih =>
      have inner : Expression.All Holds _ := ih fits (Cursor.le_trans behind next.le)
      exact Expression.all_of_parts (by simp) (by simpa [ExpressionForm.parts] using inner)
  | negate _ _ next _ ih =>
      have inner : Expression.All Holds _ := ih fits (Cursor.le_trans behind next.le)
      exact Expression.all_of_parts (by simp) (by simpa [ExpressionForm.parts] using inner)
  | unsigned _ _ _ _ _ primary _ ihPrimary ihAccesses =>
      exact ihAccesses fits (Cursor.le_trans behind primary.le) (ihPrimary fits behind)
  | leaf _ _ leaf =>
      unfold Lexeme.leaf? at leaf
      split at leaf <;> cases leaf <;>
        exact Expression.all_of_parts (by simp) (by simp [ExpressionForm.parts])
  | name => exact Expression.all_of_parts (by simp) (by simp [ExpressionForm.parts])
  | arrayCall _ named _ opened _ ih =>
      have entries := ih fits (Cursor.le_trans behind (Cursor.le_trans named.le opened.le))
      refine Expression.all_of_parts (by simp) ?_
      simpa [ExpressionForm.parts] using fun part item member => entries item member part
  | array _ opened _ ih =>
      have entries := ih fits (Cursor.le_trans behind opened.le)
      refine Expression.all_of_parts (by simp) ?_
      simpa [ExpressionForm.parts] using fun part item member => entries item member part
  | function _ next _ ih => exact ih fits (Cursor.le_trans behind next.le) _
  | parenthesized opened _ _ ih => exact ih fits (Cursor.le_trans behind opened.le)
  | noParameters => trivial
  | lastParameter => trivial
  | moreParameters => trivial
  | arrowFunction opened parameters arrow _ _ ih =>
      intro span
      have toParameters := Cursor.le_trans behind opened.le
      have toArrow := Cursor.le_trans toParameters parameters.le
      have body : Expression.All Holds _ := ih fits (Cursor.le_trans toArrow arrow.le)
      exact Expression.all_of_parts (by simp) (by simpa [ExpressionForm.parts] using body)
  | plainEntry _ dots _ _ ih =>
      have value := ih fits (Cursor.le_trans behind dots.le)
      simpa [Phrase.All, ArrayItem.parts] using value
  | keyedEntry _ _ key arrow _ ihKey ihValue =>
      have toArrow := Cursor.le_trans behind key.le
      have value := ihValue fits (Cursor.le_trans toArrow arrow.le)
      simpa [Phrase.All, ArrayItem.parts] using ⟨ihKey fits behind, value⟩
  | noEntries => exact List.forall_mem_nil _
  | lastEntry _ _ _ _ _ ih =>
      intro item member
      obtain rfl := List.mem_singleton.mp member
      exact ih fits behind
  | moreEntries _ _ entry comma _ ihEntry ihRest =>
      have toComma := Cursor.le_trans behind entry.le
      have rest := ihRest fits (Cursor.le_trans toComma comma.le)
      exact List.forall_mem_cons.mpr ⟨ihEntry fits behind, rest⟩
  | plainMember =>
      intro _ none
      cases none
  | calledMember named opened _ ih =>
      intro list member
      cases member
      exact all_arguments_of_all_entries
        (ih fits (Cursor.le_trans behind (Cursor.le_trans named.le opened.le)))
  | memberAccess next _ ih =>
      exact fun base span =>
        all_of_isMember .ofObject base (ih fits (Cursor.le_trans behind next.le))
  | entryAccess opened _ _ ih =>
      intro base span
      have index := ih fits (Cursor.le_trans behind opened.le)
      refine Expression.all_of_parts (by simp) ?_
      simpa [ExpressionForm.parts] using ⟨base, index⟩
  | callAccess opened _ _ ih =>
      intro base span
      have values := all_arguments_of_all_entries (ih fits (Cursor.le_trans behind opened.le))
      refine Expression.all_of_parts (by simp) ?_
      simpa [ExpressionForm.parts] using ⟨base, by simpa using values⟩
  | staticAccess colons _ _ ih =>
      exact fun base span =>
        all_of_isMember .ofClass base (ih fits (Cursor.le_trans behind colons.le))
  | noAccess => exact fun base => Expression.all_nameAsConstant base
  | moreAccesses access _ ihAccess ihRest =>
      exact fun base => ihRest fits (Cursor.le_trans behind access.le) (ihAccess fits behind base _)
  | emptyHole =>
      intro _ none
      cases none
  | filledHole _ _ _ ih =>
      intro inner member
      cases member
      exact ih fits (Cursor.le_trans behind (Cursor.le_skipBlanks _))
  | spread dots _ _ ih =>
      have toDots := Cursor.le_trans (Cursor.le_skipBlanks _) (Cursor.le_of_eatText? dots)
      exact ih fits (Cursor.le_trans behind (Cursor.le_trans toDots (Cursor.le_skipBlanks _)))
  | quotedValue => exact Expression.all_of_parts (by simp) (by simp [ExpressionForm.parts])
  | holeValue _ _ ih =>
      exact all_getD_nullAt (ih fits (Cursor.le_trans behind (Cursor.le_advance _)))
  | bareAttribute => exact Expression.all_of_parts (by simp) (by simp [ExpressionForm.parts])
  | valuedAttribute _ _ _ equals _ ih =>
      have toEquals := Cursor.le_trans (Cursor.le_advanceBy _ _)
        (Cursor.le_of_skipBlanks_eat? equals)
      exact ih fits (Cursor.le_trans behind (Cursor.le_trans toEquals (Cursor.le_skipBlanks _)))
  | headerEnd => exact List.forall_mem_nil _
  | selfClosingEnd => exact List.forall_mem_nil _
  | spreadItem opened spread _ ihSpread ihRest =>
      have toSpread := Cursor.le_trans behind (Cursor.le_of_skipBlanks_eat? opened)
      exact List.forall_mem_cons.mpr
        ⟨ihSpread fits toSpread, ihRest fits (Cursor.le_trans toSpread spread.le)⟩
  | attributeItem item _ ihItem ihRest =>
      have toItem := Cursor.le_trans behind (Cursor.le_skipBlanks _)
      exact List.forall_mem_cons.mpr
        ⟨ihItem fits toItem, ihRest fits (Cursor.le_trans toItem item.le)⟩
  | fragmentHeader => exact List.forall_mem_nil _
  | @namedHeader _ _ _ _ _ _ reached _ _ ih =>
      exact ih fits (Cursor.le_trans behind (Cursor.le_trans (Cursor.le_skipBlanks _) reached))
  | selfClosingElement opened header ending ih =>
      have items := ih (Nat.le_of_succ_le fits)
        (Cursor.le_trans behind (Cursor.le_of_lt (Cursor.lt_of_eat? opened)))
      refine Element.all_of_parts ?_ items (List.forall_mem_nil _)
      exact holds _ _ _ _ fits behind (.selfClosingElement opened header ending)
  | closedElement opened header ending content ihHeader ihContent =>
      have toHeader := Cursor.le_trans behind (Cursor.le_of_lt (Cursor.lt_of_eat? opened))
      have inner := Nat.le_of_succ_le fits
      refine Element.all_of_parts ?_ (ihHeader inner toHeader)
        (ihContent inner (Cursor.le_trans toHeader header.le))
      exact holds _ _ _ _ fits behind (.closedElement opened header ending content)
  | comment => exact Child.all_comment
  | hole _ _ _ ih =>
      have inside := ih fits (Cursor.le_trans behind (Cursor.le_advance _))
      exact Child.all_hole (all_getD_nullAt inside)
  | closeContent => exact fun child member => all_literalText member
  | @elementChild _ length _ _ _ _ c _ _ _ element _ ihElement ihRest =>
      have toElement := Cursor.le_trans behind (c.le_advanceBy length)
      have rest := ihRest fits (Cursor.le_trans toElement element.le)
      exact List.forall_mem_append.mpr ⟨fun _ member => all_literalText member,
        List.forall_mem_cons.mpr ⟨Child.all_element (ihElement fits toElement), rest⟩⟩
  | @bracesChild _ length _ _ _ _ c _ _ _ braces _ ihBraces ihRest =>
      have toBraces := Cursor.le_trans behind (c.le_advanceBy length)
      have rest := ihRest fits (Cursor.le_trans toBraces braces.le)
      exact List.forall_mem_append.mpr ⟨fun _ member => all_literalText member,
        List.forall_mem_cons.mpr ⟨ihBraces fits toBraces, rest⟩⟩

/--
A property of every element that is read behind `origin` holds of all elements in a phrase that
is read behind `origin`.
-/
theorem Reads.all
    {origin : Cursor}
    (holds : ∀ level element c d, origin ≤ c → Reads level (.element element) c d → Holds element)
    {level : Nat}
    {phrase : Phrase}
    {start stop : Cursor}
    (reads : Reads level phrase start stop)
    (behind : origin ≤ start) :
    phrase.All Holds :=
  reads.all_within (fun level element c d _ => holds level element c d) (Nat.le_refl _) behind

end EmbeddedMarkup
