import EmbeddedMarkup.Proofs.Markup.Following
import EmbeddedMarkup.Verbatim

/-!
# Markup does not depend on the host language

Markup passes on what its delegate gives it.  So two delegates that agree at every cursor, up to a
relation between their expressions, make two readings that agree, up to the same relation between
the expressions in the elements.  This is the case of two renderings of one text in which nothing is
written in another way.

That a delegate fails is no reason for markup to do something else.  Where a reading depends on an
answer of the delegate, and this answer is a fault, the fault is the outcome of the reading.
-/

namespace EmbeddedMarkup

variable {ε ε' α α' β : Type} {P P' Q : Cursor → Prop} {R : ε → ε' → Prop} {limit : Cursor}

/-! ## Agreement -/

/-- Two outcomes at one cursor and with the same modes, with values that `R` relates, or one fault
with the same modes. -/
inductive Outcome.Agrees (R : α → α' → Prop) : Outcome P α → Outcome P' α' → Prop
  | success
      {value : α}
      {value' : α'}
      {modes : ModeStack}
      {stop : Cursor}
      {reached : P stop}
      {reached' : P' stop} :
      R value value' →
      Agrees R (.success value modes stop reached) (.success value' modes stop reached')
  | failure {fault : Fault} {modes : ModeStack} :
      Agrees R (.failure fault modes) (.failure fault modes)

/-- The constants of two host languages are related where they are made of the same arguments. -/
structure ConstantsAgree
    [HostConstants ε]
    [HostConstants ε']
    (R : ε → ε' → Prop) : Prop where
  trueAt : ∀ span, R (HostConstants.trueAt span) (HostConstants.trueAt span)
  nullAt : ∀ span, R (HostConstants.nullAt span) (HostConstants.nullAt span)
  textAt : ∀ text span, R (HostConstants.textAt text span) (HostConstants.textAt text span)

/-- Expressions of two host languages that `R` relates. -/
abbrev RelatedPair (R : ε → ε' → Prop) : Type :=
  {pair : ε × ε' // R pair.1 pair.2}

/-- Two elements that are equal but for their expressions, which `R` relates: both are one element
of related pairs, seen from either side. -/
def Element.Agrees (R : ε → ε' → Prop) (element : Element ε) (element' : Element ε') : Prop :=
  ∃ pairs : Element (RelatedPair R),
    pairs.map (·.val.1) = element ∧ pairs.map (·.val.2) = element'

/-! ## One text as its own rendering -/

namespace LineEnds

@[simp] theorem write_kept (cs : List Char) : kept.write cs = cs := by
  rw [write, show kept.spell = fun ch => [ch] from rfl, List.flatMap_singleton']

@[simp] theorem plain_kept (text : String) : kept.plain text = text :=
  String.ofList_toList

@[simp] theorem reach_kept (cs : List Char) (n : Nat) : kept.reach cs n = min n cs.length := by
  rw [reach, write_kept, List.length_take]

end LineEnds

/-- Every text is a rendering of itself. -/
def Rendering.kept : Rendering where
  ends := .kept
  Aligned := Eq
  place := id
  span := id
  rest_eq := by
    rintro c _ rfl
    exact (LineEnds.write_kept c.rest).symm
  position_eq := by
    rintro c _ rfl
    rfl
  aligned_advanceBy := by
    rintro c _ rfl n
    rw [LineEnds.reach_kept]
    rcases Nat.le_total n c.rest.length with within | beyond
    · rw [Nat.min_eq_left within]
    · rw [Nat.min_eq_right beyond, Cursor.advanceBy_eq_of_length_le beyond]
  between_place _ _ := rfl
  position_span _ := rfl

theorem Lexeme.eq_of_follows_kept
    {lexeme lexeme' : Lexeme}
    (follows : Lexeme.Follows .kept lexeme lexeme') :
    lexeme' = lexeme := by
  cases follows with
  | same => rfl
  | string same => simpa using same

theorem Cause.eq_of_follows_kept
    {cause cause' : Cause}
    (follows : Cause.Follows .kept cause cause') :
    cause' = cause := by
  cases follows with
  | same => rfl
  | unexpected found => rw [Lexeme.eq_of_follows_kept found]
  | expected found => rw [Lexeme.eq_of_follows_kept found]

theorem Fault.eq_of_follows_kept
    {fault fault' : Fault}
    (follows : Fault.Follows .kept fault fault') :
    fault' = fault := by
  obtain ⟨cause, place⟩ := fault
  obtain ⟨cause', place'⟩ := fault'
  obtain ⟨same, moved⟩ := follows
  rw [Located.mk.injEq]
  exact ⟨Cause.eq_of_follows_kept same, moved⟩

/-- Outcomes that agree follow each other in one text. -/
theorem Outcome.Agrees.follows
    {S : α → α' → Prop}
    {outcome : Outcome P α}
    {outcome' : Outcome P' α'}
    (agrees : outcome.Agrees S outcome') :
    Outcome.Follows .kept S outcome outcome' := by
  cases agrees with
  | success related => exact .success related rfl
  | failure => exact .failure ⟨.same _, rfl⟩

/-- Outcomes that follow each other in one text agree. -/
theorem Outcome.Follows.agrees
    {S T : α → α' → Prop}
    {outcome : Outcome P α}
    {outcome' : Outcome P' α'}
    (follows : Outcome.Follows .kept S outcome outcome')
    (keeps : ∀ value value', S value value' → T value value') :
    outcome.Agrees T outcome' := by
  cases follows with
  | success related aligned =>
      cases (aligned : _ = _)
      exact .success (keeps _ _ related)
  | failure same =>
      obtain rfl := Fault.eq_of_follows_kept same
      exact .failure

theorem ConstantsAgree.follow
    [HostConstants ε]
    [HostConstants ε']
    (agree : ConstantsAgree R) :
    ConstantsFollow .kept R where
  trueAt := agree.trueAt
  nullAt := agree.nullAt
  textAt := by
    intro text text' span same
    obtain rfl : text' = text := by simpa [Rendering.kept] using same
    exact agree.textAt text' span

theorem AttributeItem.exists_pairs_of_follows
    {items : List (AttributeItem ε)}
    {items' : List (AttributeItem ε')}
    (follow : List.Forall₂ (AttributeItem.Follows .kept R) items items') :
    ∃ pairs : List (AttributeItem (RelatedPair R)),
      pairs.map (·.map (·.val.1)) = items ∧ pairs.map (·.map (·.val.2)) = items' := by
  induction follow with
  | nil => exact ⟨[], rfl, rfl⟩
  | cons first _ ih =>
      obtain ⟨pairs, rfl, rfl⟩ := ih
      cases first with
      | @named name value value' span related =>
          exact ⟨.named ⟨name, ⟨(value, value'), related⟩, span⟩ :: pairs, rfl, rfl⟩
      | @spread value value' span related =>
          exact ⟨.spread ⟨⟨(value, value'), related⟩, span⟩ :: pairs, rfl, rfl⟩

mutual

/-- An element that follows another one in the same text agrees with it. -/
theorem Element.agrees_of_follows :
    (element : Element ε) → ∀ {element' : Element ε'},
      Element.Follows .kept R element element' → element.Agrees R element'
  | ⟨name, items, children, closingName, span⟩, _, .mk follow follow' => by
      obtain ⟨attributes, rfl, rfl⟩ := AttributeItem.exists_pairs_of_follows follow
      obtain ⟨pairs, rfl, rfl⟩ := Child.exists_pairs_of_follows children follow'
      exact ⟨⟨name, attributes, pairs, closingName, span⟩, rfl, rfl⟩

/-- Children that follow others in the same text are equal but for their expressions. -/
theorem Child.exists_pairs_of_follows :
    (children : List (Child ε)) → ∀ {children' : List (Child ε')},
      List.Forall₂ (Child.Follows .kept R) children children' →
      ∃ pairs : List (Child (RelatedPair R)),
        Child.mapAll (·.val.1) pairs = children ∧ Child.mapAll (·.val.2) pairs = children'
  | [], _, .nil => ⟨[], rfl, rfl⟩
  | .element element :: children, _, .cons (.element follows) follow => by
      obtain ⟨inner, rfl, rfl⟩ := Element.agrees_of_follows element follows
      obtain ⟨pairs, rfl, rfl⟩ := Child.exists_pairs_of_follows children follow
      exact ⟨.element inner :: pairs, rfl, rfl⟩
  | .text literal :: children, _, .cons .text follow => by
      obtain ⟨pairs, rfl, rfl⟩ := Child.exists_pairs_of_follows children follow
      exact ⟨.text literal :: pairs, rfl, rfl⟩
  | .hole ⟨expression, span⟩ :: children, _, .cons (.hole related) follow => by
      obtain ⟨pairs, rfl, rfl⟩ := Child.exists_pairs_of_follows children follow
      exact ⟨.hole ⟨⟨(expression, _), related⟩, span⟩ :: pairs, rfl, rfl⟩
  | .comment ⟨text, span⟩ :: children, _, .cons (.comment same) follow => by
      obtain ⟨pairs, rfl, rfl⟩ := Child.exists_pairs_of_follows children follow
      refine ⟨.comment ⟨text, span⟩ :: pairs, rfl, ?_⟩
      rw [Rendering.kept, LineEnds.plain_kept, LineEnds.plain_kept] at same
      rw [same]
      rfl

end

/-! ## Answers that are faults -/

/-- The second outcome is the first one, or the first one is a fault that was given as an answer. -/
def Outcome.Defers
    (Given : Fault → ModeStack → Prop)
    (outcome outcome' : Outcome P α) : Prop :=
  outcome' = outcome ∨ ∃ fault modes, Given fault modes ∧ outcome = .failure fault modes

namespace Outcome.Defers

variable {Given : Fault → ModeStack → Prop} {outcome outcome' : Outcome P α} {modes : ModeStack}

theorem refl (outcome : Outcome P α) : outcome.Defers Given outcome :=
  .inl rfl

theorem andThen
    {next next' : α → ModeStack → (stop : Cursor) → P stop → Outcome Q β}
    (first : outcome.Defers Given outcome')
    (second : ∀ value modes stop reached,
      (next value modes stop reached).Defers Given (next' value modes stop reached)) :
    (outcome.andThen next).Defers Given (outcome'.andThen next') := by
  rcases first with rfl | ⟨fault, after, given, rfl⟩
  · cases outcome' with
    | success value modes stop reached => exact second value modes stop reached
    | failure fault modes => exact .refl _
  · exact .inr ⟨fault, after, given, rfl⟩

theorem map {f : α → β} (defers : outcome.Defers Given outcome') :
    (outcome.map f).Defers Given (outcome'.map f) :=
  defers.andThen fun _ _ _ _ => .refl _

theorem weaken {weaker : ∀ stop, P stop → Q stop} (defers : outcome.Defers Given outcome') :
    (outcome.weaken weaker).Defers Given (outcome'.weaken weaker) :=
  defers.andThen fun _ _ _ _ => .refl _

theorem afterStep
    {step : ModeStep β}
    {next next' : β → ModeStack → Outcome P α}
    (second : ∀ value modes, (next value modes).Defers Given (next' value modes)) :
    (Outcome.afterStep step modes next).Defers Given (.afterStep step modes next') := by
  unfold Outcome.afterStep
  cases step modes with
  | ok value after => exact second value after
  | error refusal after => exact .refl _

theorem afterRead
    {read : Except Fault (Read Q β)}
    {next next' : β → (stop : Cursor) → Q stop → Outcome P α}
    (second : ∀ value stop reached,
      (next value stop reached).Defers Given (next' value stop reached)) :
    (Outcome.afterRead read modes next).Defers Given (.afterRead read modes next') := by
  cases read with
  | ok read => exact second read.value read.stop read.reached
  | error fault => exact .refl _

end Outcome.Defers

/-- The delegates give the same answers, or answers of the first one that are faults. -/
def DelegateBehind.Defers
    (Given : Fault → ModeStack → Prop)
    (delegate delegate' : DelegateBehind ε limit) : Prop :=
  ∀ modes start ahead, (delegate modes start ahead).Defers Given (delegate' modes start ahead)

section Readers

variable
  {Given : Fault → ModeStack → Prop}
  {delegate delegate' : DelegateBehind ε limit}
  {modes : ModeStack}
  {start : Cursor}
  (defers : DelegateBehind.Defers Given delegate delegate')

include defers

theorem defers_readHoleExpression {ahead : limit < start} :
    (readHoleExpression delegate modes start ahead).Defers Given
      (readHoleExpression delegate' modes start ahead) :=
  (defers modes start ahead).andThen fun _ _ _ _ => .refl _

theorem defers_readHole {ahead : limit < start} :
    (readHole delegate modes start ahead).Defers Given (readHole delegate' modes start ahead) := by
  refine .afterStep fun _ modes => ?_
  dsimp only
  split
  · exact .refl _
  · exact (defers_readHoleExpression defers).map.weaken

theorem defers_readSpread {ahead : limit < start} :
    (readSpread delegate modes start ahead).Defers Given
      (readSpread delegate' modes start ahead) := by
  refine .afterStep fun _ modes => ?_
  split
  · exact .refl _
  · exact (defers_readHoleExpression defers).weaken

variable [HostConstants ε]

theorem defers_readAttributeValue {ahead : limit < start} {name : String} :
    (readAttributeValue delegate modes start ahead name).Defers Given
      (readAttributeValue delegate' modes start ahead name) := by
  unfold readAttributeValue
  split
  · exact .refl _
  · exact .refl _
  · exact (defers_readHole defers).andThen fun _ _ _ _ => .refl _
  · exact .refl _

theorem defers_readAttribute {ahead : limit < start} {tag : String} :
    (readAttribute delegate modes start ahead tag).Defers Given
      (readAttribute delegate' modes start ahead tag) := by
  unfold readAttribute
  split
  · exact .refl _
  · dsimp only
    split
    · exact .refl _
    · split
      · exact .refl _
      · exact (defers_readAttributeValue defers).andThen fun _ _ _ _ => .refl _

theorem defers_readHeaderTail {ahead : limit < start} {tag : String} {opened : Position} :
    (readHeaderTail delegate modes start ahead tag opened).Defers Given
      (readHeaderTail delegate' modes start ahead tag opened) := by
  induction size : start.size using Nat.strongRecOn generalizing start modes with
  | ind size shorter =>
      subst size
      rw [readHeaderTail, readHeaderTail]
      dsimp only
      split
      · exact .refl _
      · exact .refl _
      · exact .refl _
      · rename_i next
        refine (defers_readSpread defers).andThen ?_
        intro expression modes behind read
        have passed : start < behind :=
          Cursor.lt_of_le_of_lt start.le_skipBlanks (Cursor.lt_trans (Cursor.lt_advance next) read)
        exact (shorter _ (Cursor.size_lt_of_lt passed) rfl).map.weaken
      · refine (defers_readAttribute defers).andThen ?_
        intro item modes behind read
        have passed : start < behind := Cursor.lt_of_le_of_lt start.le_skipBlanks read
        exact (shorter _ (Cursor.size_lt_of_lt passed) rfl).map.weaken

theorem defers_readHeader {ahead : limit < start} {opened : Position} :
    (readHeader delegate modes start ahead opened).Defers Given
      (readHeader delegate' modes start ahead opened) := by
  unfold readHeader
  dsimp only
  split
  · exact .refl _
  · exact .afterRead fun _ _ _ => (defers_readHeaderTail defers).map.weaken

theorem defers_readBraces {ahead : limit < start} :
    (readBraces delegate modes start ahead).Defers Given
      (readBraces delegate' modes start ahead) := by
  unfold readBraces
  split
  · exact .refl _
  · exact .refl _
  · dsimp only
    split
    · exact .refl _
    · exact (defers_readHole defers).andThen fun _ _ _ _ => .refl _

mutual

/-- An element is the same as long as the answers are. -/
theorem defers_readElementBehind {modes : ModeStack} {start : Cursor} {ahead : limit ≤ start} :
    (readElementBehind delegate modes start ahead).Defers Given
      (readElementBehind delegate' modes start ahead) := by
  rw [readElementBehind, readElementBehind]
  split
  · exact .refl _
  · rename_i inside opened
    refine .afterStep fun _ modes => (defers_readHeader defers).andThen ?_
    intro header modes behind read
    have passed : start < behind := Cursor.lt_trans (Cursor.lt_of_eat? opened) read
    dsimp only
    split
    · exact .refl _
    · refine .afterStep fun _ modes => ?_
      exact defers_readContentBehind.andThen fun _ _ _ _ => .refl _
termination_by (start.size, 0)
decreasing_by exact Prod.Lex.left _ _ (Cursor.size_lt_of_lt passed)

/-- Content is the same as long as the answers are. -/
theorem defers_readContentBehind
    {modes : ModeStack}
    {start : Cursor}
    {ahead : limit < start}
    {name : String}
    {opened : Position}
    {left : Boundary} :
    (readContentBehind delegate modes start ahead name opened left).Defers Given
      (readContentBehind delegate' modes start ahead name opened left) := by
  have reached := start.le_advanceBy (ContentMark.next start.rest).1
  rw [readContentBehind, readContentBehind]
  dsimp only
  split
  · exact .refl _
  · exact .refl _
  · refine defers_readElementBehind.andThen ?_
    intro element modes behind read
    have passed : start < behind := Cursor.lt_of_le_of_lt reached read
    exact defers_readContentBehind.map.weaken
  · refine (defers_readBraces defers).andThen ?_
    intro child modes behind read
    have passed : start < behind := Cursor.lt_of_le_of_lt reached read
    exact defers_readContentBehind.map.weaken
termination_by (start.size, 1)
decreasing_by
  · rcases Nat.lt_or_eq_of_le (Cursor.size_le_of_le reached) with less | same
    · exact Prod.Lex.left _ _ less
    · rw [same]
      exact Prod.Lex.right _ Nat.zero_lt_one
  · exact Prod.Lex.left _ _ (Cursor.size_lt_of_lt passed)
  · exact Prod.Lex.left _ _ (Cursor.size_lt_of_lt passed)

end

end Readers

/-! ## Elements -/

/-- The outcome of reading an element depends on what the delegate answers for one expression: it
would be another one if the delegate gave another answer there. -/
def Delegate.Decides
    [HostConstants ε]
    (delegate : Delegate ε)
    (modes : ModeStack)
    (start : Cursor)
    (within : ModeStack)
    (inside : Cursor) : Prop :=
  ∃ other : Delegate ε,
    (∀ modes start, modes ≠ within ∨ start ≠ inside → other modes start = delegate modes start) ∧
    readElement other modes start ≠ readElement delegate modes start

/-- A fault that decides about an element is its outcome. -/
theorem Delegate.Decides.readElement_eq
    [HostConstants ε]
    {delegate : Delegate ε}
    {modes within after : ModeStack}
    {start inside : Cursor}
    {fault : Fault}
    (decides : delegate.Decides modes start within inside)
    (failed : delegate within inside = .failure fault after) :
    readElement delegate modes start = .failure fault after := by
  obtain ⟨other, elsewhere, differs⟩ := decides
  have defers : DelegateBehind.Defers (fun given modes => given = fault ∧ modes = after)
      (delegate.behind start) (other.behind start) := by
    intro modes' start' _
    by_cases same : modes' = within ∧ start' = inside
    · obtain ⟨rfl, rfl⟩ := same
      exact .inr ⟨fault, after, ⟨rfl, rfl⟩, failed⟩
    · exact .inl (elsewhere modes' start' (not_and_or.mp same))
  unfold readElement at differs ⊢
  rcases defers_readElementBehind defers with unchanged | ⟨_, _, ⟨rfl, rfl⟩, outcome⟩
  · exact absurd unchanged differs
  · exact outcome

theorem Outcome.agrees_map (outcome : Outcome P α) (f : α → α') :
    outcome.Agrees (fun value value' => f value = value') (outcome.map f) := by
  cases outcome with
  | success value modes stop reached => exact .success rfl
  | failure fault modes => exact .failure

theorem Outcome.Agrees.eq_failure
    {S : α → α' → Prop}
    {outcome : Outcome P α}
    {outcome' : Outcome P' α'}
    {fault : Fault}
    {modes : ModeStack}
    (agrees : outcome.Agrees S outcome')
    (failed : outcome = .failure fault modes) :
    outcome' = .failure fault modes := by
  subst failed
  cases agrees
  rfl

/--
Elements do not depend on the host language.  Where the constants of two host languages agree, and
so do two delegates at every cursor, the readings of an element agree: they end at one cursor with
the same modes and elements that are equal but for related expressions, or in one fault with the
same modes.  A fault of a delegate that decides about the element comes out as it is, with both.
-/
theorem readElement_agrees
    [HostConstants ε]
    [HostConstants ε']
    {delegate : Delegate ε}
    {delegate' : Delegate ε'}
    (constants : ConstantsAgree R)
    (agree : ∀ modes start, (delegate modes start).Agrees R (delegate' modes start))
    (modes : ModeStack)
    (start : Cursor) :
    (readElement delegate modes start).Agrees (Element.Agrees R)
        (readElement delegate' modes start) ∧
      ∀ within inside fault after,
        delegate.Decides modes start within inside →
        delegate within inside = .failure fault after →
        readElement delegate modes start = .failure fault after ∧
          readElement delegate' modes start = .failure fault after := by
  have constantsFollow := constants.follow
  have follows :
      DelegateBehind.Follows .kept R (delegate.behind start) (delegate'.behind start) := by
    rintro modes start _ _ _ rfl
    exact (agree modes start).follows
  have agrees : (readElement delegate modes start).Agrees (Element.Agrees R)
      (readElement delegate' modes start) := by
    unfold readElement
    exact (follows_readElementBehind follows (@rfl _ start)).agrees
      fun element _ => Element.agrees_of_follows element
  refine ⟨agrees, fun within inside fault after decides failed => ?_⟩
  have outcome := decides.readElement_eq failed
  exact ⟨outcome, agrees.eq_failure outcome⟩

/-- A host language that keeps nothing of an expression but where it stands. -/
instance : HostConstants Span where
  trueAt span := span
  nullAt span := span
  textAt _ span := span

/-- The modes in the spread of an outermost tag. -/
def ModeStack.inSpread (budget : Nat) : ModeStack :=
  ⟨[.expressionHole 1 .tagHeader, .tagHeader 1, .hostCode], 0, budget⟩

/-- A fault in the spread of this element is its fault. -/
theorem readElement_refusedSpread
    [HostConstants ε]
    {delegate : Delegate ε}
    {fault : Fault}
    {after : ModeStack}
    (failed : delegate (.inSpread 2) ((Cursor.ofText "<a {...!x}/>").advanceBy 7) =
      .failure fault after) :
    readElement delegate (.initial 2) (.ofText "<a {...!x}/>") = .failure fault after := by
  rw [readElement, readElementBehind]
  change Outcome.andThen (readHeader _ _ _ _ _) _ = _
  unfold readHeader
  change Outcome.andThen (((readHeaderTail _ _ _ _ _ _).map _).weaken _) _ = _
  rw [readHeaderTail]
  change Outcome.andThen (((Outcome.andThen (((delegate (.inSpread 2)
    ((Cursor.ofText "<a {...!x}/>").advanceBy 7)).andThen _).weaken _) _).map _).weaken _) _ = _
  rw [failed]
  rfl

/-- Verbatim expressions and their spans make the same elements, and the fault for an expression
that is refused, here in a spread, comes out as it is. -/
theorem readElement_agrees_refusal :
    ∃ (spans : Delegate Span) (fault : Fault) (after : ModeStack),
      (∀ modes start,
        (readElement Verbatim.read modes start).Agrees
          (Element.Agrees fun (expression : Verbatim) span => expression.span = span)
          (readElement spans modes start)) ∧
      fault.display = "Parse error at line 1, column 8: Rejected by delegate" ∧
      readElement Verbatim.read (.initial 2) (.ofText "<a {...!x}/>") = .failure fault after ∧
      readElement spans (.initial 2) (.ofText "<a {...!x}/>") = .failure fault after := by
  let inside : Cursor := (Cursor.ofText "<a {...!x}/>").advanceBy 7
  let fault : Fault := ⟨.stated .delegated "Rejected by delegate", inside.position⟩
  let after : ModeStack := { ModeStack.inSpread 2 with expressions := 1 }
  have refused : Verbatim.read (.inSpread 2) inside = .failure fault after := by
    rw [Verbatim.read]
    rfl
  have decides : Delegate.Decides Verbatim.read (.initial 2) (.ofText "<a {...!x}/>")
      (.inSpread 2) inside := by
    classical
    let other : Delegate Verbatim := fun modes start =>
      if modes = .inSpread 2 ∧ start = inside then .failure fault (.inSpread 2)
      else Verbatim.read modes start
    refine ⟨other, fun modes start apart => if_neg (not_and_or.mpr apart), ?_⟩
    rw [readElement_refusedSpread refused,
      @readElement_refusedSpread _ _ other fault (.inSpread 2) (if_pos ⟨rfl, rfl⟩)]
    intro same
    injection same with _ sameModes
    exact absurd sameModes (by decide)
  have constants : ConstantsAgree fun (expression : Verbatim) span => expression.span = span :=
    ⟨fun _ => rfl, fun _ => rfl, fun _ _ => rfl⟩
  have agree := fun modes start => (Verbatim.read modes start).agrees_map Verbatim.span
  obtain ⟨-, unchanged⟩ := readElement_agrees constants agree (.initial 2) (.ofText "<a {...!x}/>")
  exact ⟨_, fault, after, fun modes start => (readElement_agrees constants agree modes start).1,
    by decide +kernel, unchanged _ _ _ _ decides refused⟩

end EmbeddedMarkup
