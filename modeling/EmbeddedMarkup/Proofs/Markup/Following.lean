import EmbeddedMarkup.Proofs.Reading.Following

/-!
# The readers of markup in two renderings

The readers of markup follow themselves when their delegates do.  All that they do with the
expressions of a delegate is to put them into elements, so the two delegates may read expressions of
different types.  The constants that markup writes itself have to be related as well.
-/

namespace EmbeddedMarkup

variable
  {ε ε' : Type}
  {r : Rendering}
  {R : ε → ε' → Prop}
  {P P' : Cursor → Prop}
  {limit limit' start start' : Cursor}
  {modes : ModeStack}

/-! ## Parts of elements -/

/-- The second header follows the first one. -/
structure Header.Follows (r : Rendering) (R : ε → ε' → Prop)
    (header : Header ε) (header' : Header ε') : Prop where
  name : header'.name = header.name
  attributes : List.Forall₂ (AttributeItem.Follows r R) header.attributes header'.attributes
  ending : header'.ending = header.ending

/-- The second end of a header follows the first one. -/
structure HeaderTail.Follows (r : Rendering) (R : ε → ε' → Prop)
    (tail : HeaderTail ε) (tail' : HeaderTail ε') : Prop where
  attributes : List.Forall₂ (AttributeItem.Follows r R) tail.1 tail'.1
  ending : tail'.2 = tail.2

/-- The second content follows the first one. -/
structure Content.Follows (r : Rendering) (R : ε → ε' → Prop)
    (content : Content ε) (content' : Content ε') : Prop where
  children : List.Forall₂ (Child.Follows r R) content.1 content'.1
  closing : content'.2 = content.2

/-- The constants that markup writes itself are related. -/
class ConstantsFollow
    [HostConstants ε]
    [HostConstants ε']
    (r : Rendering)
    (R : ε → ε' → Prop) : Prop where
  trueAt : ∀ span, R (HostConstants.trueAt span) (HostConstants.trueAt (r.span span))
  nullAt : ∀ span, R (HostConstants.nullAt span) (HostConstants.nullAt (r.span span))
  textAt : ∀ {value value' : String} (span : Span),
    r.ends.plain value' = r.ends.plain value →
    R (HostConstants.textAt value span) (HostConstants.textAt value' (r.span span))

theorem Content.Follows.prepend
    {children : List (Child ε)}
    {children' : List (Child ε')}
    {content : Content ε}
    {content' : Content ε'}
    (follows : Content.Follows r R content content')
    (front : List.Forall₂ (Child.Follows r R) children children') :
    Content.Follows r R (content.prepend children) (content'.prepend children') :=
  ⟨List.rel_append front follows.children, follows.closing⟩

/-- No blank is ahead of a cursor that has skipped them. -/
theorem Cursor.visible_skipBlanks
    (c : Cursor)
    (ch : Char)
    (ahead : c.skipBlanks.peek? = some ch) :
    isBlank ch = false :=
  fails_of_peek?_skipWhile ahead

/-! ## Readings that leave the modes alone -/

section Readings

theorem follows_readHoleEnd (aligned : r.Aligned start start') :
    ReadFollows r Eq (readHoleEnd start) (readHoleEnd start') := by
  have ended := Rendering.eat? aligned (@rfl _ (isLineEnd '\x7d'))
  unfold readHoleEnd
  rw [Rendering.isAtEnd_eq aligned]
  split <;> rename_i closed <;> rw [closed] at ended
  · split <;> rename_i closed' <;> rw [closed'] at ended <;> cases ended
    rename_i moved
    exact .ok rfl moved
  · split
    all_goals
      split <;> rename_i closed' <;> rw [closed'] at ended <;> cases ended
      exact .error (Fault.follows_markup aligned)

theorem follows_readQuotedValue
    [HostConstants ε]
    [HostConstants ε']
    [ConstantsFollow r R]
    {quote : Char}
    (aligned : r.Aligned start start')
    (opened : start.peek? = some quote)
    (inLine : isLineEnd quote = false) :
    ReadFollows r R (readQuotedValue start quote) (readQuotedValue start' quote) := by
  have inside := Rendering.advance aligned opened inLine
  have blind : LineBlind (· != quote) := by
    obtain ⟨noFeed, noReturn⟩ := isLineEnd_eq_false_iff.mp inLine
    exact (bne_iff_ne.mpr noReturn.symm).trans (bne_iff_ne.mpr noFeed.symm).symm
  have behind := Rendering.skipWhile inside blind
  have ended := Rendering.eat? behind inLine
  have text : start'.advance.textWhile (· != quote) =
      r.ends.write (start.advance.textWhile (· != quote)) := by
    rw [Cursor.textWhile, r.rest_eq inside, LineEnds.takeWhile_write blind, Cursor.textWhile]
  unfold readQuotedValue
  dsimp only
  unfold Cursor.skipWhile at ended
  split <;> rename_i closed <;> rw [closed] at ended
  · split <;> rename_i closed' <;> rw [closed'] at ended <;> cases ended
    exact .error (Fault.follows_markup aligned)
  · split <;> rename_i closed' <;> rw [closed'] at ended <;> cases ended
    rename_i moved
    refine .ok ?_ moved
    rw [text, Rendering.spanTo_eq aligned moved]
    exact ConstantsFollow.textAt _ LineEnds.plain_ofList_write

/-- Where a tag name lacks a segment, its last point is ahead. -/
theorem TagNameTail.prefix_of_incomplete
    {cs : List Char}
    (incomplete : (TagNameTail.read cs).complete = false) :
    (TagNameTail.read cs).text ++ ['.'] <+: cs := by
  fun_induction TagNameTail.read cs with
  | case1 => cases incomplete
  | case2 => exact ⟨[], rfl⟩
  | case3 ch rest _ ih => exact List.prefix_append_right_inj ['.', ch] |>.mpr (ih incomplete)
  | case4 ch rest => exact ⟨ch :: rest, rfl⟩
  | case5 ch rest _ _ _ ih => exact List.prefix_append_right_inj [ch] |>.mpr (ih incomplete)
  | case6 => cases incomplete

/-- A name is followed, and so is the fault behind a point that no segment follows. -/
theorem follows_readDottedName (aligned : r.Aligned start start') :
    ReadFollows r Eq (readDottedName start) (readDottedName start') := by
  have inLine := LineEnds.inLine_text_read start.rest
  unfold readDottedName
  simp only [r.rest_eq aligned, LineEnds.tagNameTail_read_write]
  split
  · exact .ok rfl (Rendering.advanceBy_length aligned (TagNameTail.prefix_text_read _) inLine)
  · rename_i incomplete
    have opens := TagNameTail.prefix_of_incomplete (Bool.eq_false_iff.mpr incomplete)
    have moved := Rendering.advanceBy_length aligned opens
      (List.forall_mem_append.mpr ⟨inLine, by decide⟩)
    rw [List.length_append] at moved
    exact .error (Fault.follows_markup moved)

theorem follows_readTagName
    (aligned : r.Aligned start start')
    (visible : ∀ ch, start.peek? = some ch → isBlank ch = false) :
    ReadFollows r Eq (readTagName start) (readTagName start') := by
  unfold readTagName
  rw [r.rest_eq aligned, LineEnds.startsIdentifier_write, Rendering.peek?_eq aligned visible]
  split
  · exact follows_readDottedName aligned
  · exact .error (Fault.follows_markup aligned)

theorem follows_readClosingName (aligned : r.Aligned start start') :
    ReadFollows r Eq (readClosingName start) (readClosingName start') := by
  unfold readClosingName
  rw [r.rest_eq aligned, LineEnds.startsIdentifier_write]
  split
  · exact follows_readDottedName aligned
  · exact .ok rfl aligned

theorem follows_readClosingTag
    {name : String}
    (aligned : r.Aligned start start')
    (opens : "</".toList <+: start.rest) :
    ReadFollows r Eq (readClosingTag start name) (readClosingTag start' name) := by
  have inside := Rendering.skipBlanks
    (@Rendering.advanceBy_length _ _ _ _ aligned opens (by decide))
  have named := follows_readClosingName inside
  unfold readClosingTag
  dsimp only
  change ReadFollows r Eq (readClosingName (start.advanceBy 2).skipBlanks)
    (readClosingName (start'.advanceBy 2).skipBlanks) at named
  generalize readClosingName (start.advanceBy 2).skipBlanks = reading at named ⊢
  generalize readClosingName (start'.advanceBy 2).skipBlanks = reading' at named ⊢
  cases named with
  | error same => exact .error same
  | @ok closing closing' stop stop' _ _ same moved =>
      subst same
      have behind := Rendering.skipBlanks moved
      have ended := Rendering.eat? behind (@rfl _ (isLineEnd '>'))
      dsimp only
      rw [Rendering.isAtEnd_eq behind]
      split
      · exact .error (Fault.follows_markup aligned)
      · split <;> rename_i closed <;> rw [closed] at ended
        · split <;> rename_i closed' <;> rw [closed'] at ended <;> cases ended
          rename_i moved
          exact .ok rfl moved
        · split
          · split <;> rename_i closed' <;> rw [closed'] at ended <;> cases ended
            exact .error (Fault.follows_markup aligned)
          · split <;> rename_i closed' <;> rw [closed'] at ended <;> cases ended
            exact .error (Fault.follows_markup behind)

/-- The outcomes of looking for a comment in a pair of braces, in two renderings. -/
inductive CommentFollows (r : Rendering) :
    Except Fault (Option (Read P Comment)) → Except Fault (Option (Read P' Comment)) → Prop
  | found
      {text text' : String}
      {span : Span}
      {stop stop' : Cursor}
      {reached : P stop}
      {reached' : P' stop'} :
      r.ends.plain text' = r.ends.plain text →
      r.Aligned stop stop' →
      CommentFollows r (.ok (some ⟨⟨text, span⟩, stop, reached⟩))
        (.ok (some ⟨⟨text', r.span span⟩, stop', reached'⟩))
  | absent : CommentFollows r (.ok none) (.ok none)
  | error {fault fault' : Fault} :
      fault.Follows r fault' →
      CommentFollows r (.error fault) (.error fault')

theorem follows_readComment? (aligned : r.Aligned start start') :
    CommentFollows r (readComment? start) (readComment? start') := by
  have opening := Rendering.eat? aligned (@rfl _ (isLineEnd '\x7b'))
  unfold readComment?
  split <;> rename_i opened <;> rw [opened] at opening <;> split <;> rename_i opened' <;>
    rw [opened'] at opening <;> cases opening
  · exact .absent
  · rename_i inside inside' entered
    have skipped := Rendering.skipBlanks entered
    dsimp only
    rw [Rendering.startsWith_eq skipped (by decide)]
    split
    · rename_i starts
      have opens := List.isPrefixOf_iff_prefix.mp starts
      have delimiter : r.ends.reach inside.skipBlanks.rest 2 = 2 :=
        LineEnds.reach_of_opens opens (by decide)
      have behindOpening : inside'.skipBlanks.rest.drop 2 =
          r.ends.write (inside.skipBlanks.rest.drop 2) := by
        rw [r.rest_eq skipped, ← LineEnds.drop_write, delimiter]
      have tails : blockCommentTail? (inside'.skipBlanks.rest.drop 2) =
          (blockCommentTail? (inside.skipBlanks.rest.drop 2)).map
            (r.ends.reach (inside.skipBlanks.rest.drop 2)) := by
        rw [behindOpening, LineEnds.blockCommentTail?_write]
      rw [tails]
      cases blockCommentTail? (inside.skipBlanks.rest.drop 2) with
      | none => exact .error (Fault.follows_markup skipped)
      | some tail =>
          have whole : r.ends.reach inside.skipBlanks.rest (tail + 2) =
              r.ends.reach (inside.skipBlanks.rest.drop 2) tail + 2 := by
            rw [Nat.add_comm tail, LineEnds.reach_add, delimiter, Nat.add_comm]
          have taken : inside'.skipBlanks.rest.take
                (r.ends.reach (inside.skipBlanks.rest.drop 2) tail + 2) =
              r.ends.write (inside.skipBlanks.rest.take (tail + 2)) := by
            rw [← whole, r.rest_eq skipped, LineEnds.take_write]
          have behind := Rendering.skipBlanks (r.aligned_advanceBy skipped (tail + 2))
          rw [whole] at behind
          have closing := Rendering.eat? behind (@rfl _ (isLineEnd '\x7d'))
          dsimp only [Option.map_some]
          split <;> rename_i closed <;> rw [closed] at closing <;> split <;> rename_i closed' <;>
            rw [closed'] at closing <;> cases closing
          · exact .absent
          · rename_i stopped
            rw [Rendering.spanTo_eq aligned stopped, taken]
            exact .found LineEnds.plain_ofList_write stopped
    · exact .absent

end Readings

/-- The second delegate follows the first one. -/
def DelegateBehind.Follows
    (r : Rendering)
    (R : ε → ε' → Prop)
    (delegate : DelegateBehind ε limit)
    (delegate' : DelegateBehind ε' limit') : Prop :=
  ∀ modes start start' ahead ahead', r.Aligned start start' →
    Ending.Follows r R (delegate modes start ahead) (delegate' modes start' ahead')

section Readers

variable
  {delegate : DelegateBehind ε limit}
  {delegate' : DelegateBehind ε' limit'}
  {ahead : limit < start}
  {ahead' : limit' < start'}

theorem follows_leaveHole
    {α α' : Type}
    {S : α → α' → Prop}
    {value : α}
    {value' : α'}
    (same : S value value')
    (aligned : r.Aligned start start') :
    Ending.Follows r S (leaveHole value modes start) (leaveHole value' modes start') := by
  refine .afterRead (follows_readHoleEnd (Rendering.skipBlanks aligned)) ?_
  intro _ _ stop stop' _ _ _ aligned'
  exact .afterStep ModeStack.isPlaced_closeHole aligned' fun _ _ => .success same aligned'

theorem follows_readHoleExpression
    (follows : DelegateBehind.Follows r R delegate delegate')
    (aligned : r.Aligned start start') :
    Ending.Follows r R (readHoleExpression delegate modes start ahead)
      (readHoleExpression delegate' modes start' ahead') := by
  refine (follows modes start start' ahead ahead' aligned).andThen ?_
  intro _ _ _ _ _ _ _ same aligned'
  exact (follows_leaveHole same aligned').weaken

theorem follows_readHole
    (follows : DelegateBehind.Follows r R delegate delegate')
    (aligned : r.Aligned start start') :
    Ending.Follows r (Option.Rel R) (readHole delegate modes start ahead)
      (readHole delegate' modes start' ahead') := by
  have inside := Rendering.skipBlanks aligned
  have next := @Rendering.peek?_eq_some_iff r _ _ '\x7d' inside rfl
  refine .afterStep ModeStack.isPlaced_openHole aligned fun _ modes => ?_
  dsimp only
  simp only [next]
  split
  · exact (follows_leaveHole .none inside).weaken
  · exact ((follows_readHoleExpression follows inside).map fun _ _ => .some).weaken

theorem follows_readSpread
    (follows : DelegateBehind.Follows r R delegate delegate')
    (aligned : r.Aligned start start') :
    Ending.Follows r R (readSpread delegate modes start ahead)
      (readSpread delegate' modes start' ahead') := by
  have skipped := Rendering.skipBlanks aligned
  have ellipsis := @Rendering.eatText? r _ _ "..." skipped (by decide)
  refine .afterStep ModeStack.isPlaced_openHole aligned fun _ modes => ?_
  split <;> rename_i dots <;> rw [dots] at ellipsis <;> split <;> rename_i dots' <;>
    rw [dots'] at ellipsis <;> cases ellipsis
  · exact .failure (Fault.follows_markup skipped)
  · rename_i behind
    exact (follows_readHoleExpression follows (Rendering.skipBlanks behind)).weaken

variable
  [HostConstants ε]
  [HostConstants ε']
  [ConstantsFollow r R]

/-- A hole without an expression has the same constant in both runs. -/
theorem rel_getD_nullAt
    {part : Option ε}
    {part' : Option ε'}
    {span : Span}
    (same : Option.Rel R part part') :
    R (part.getD (HostConstants.nullAt span))
      (part'.getD (HostConstants.nullAt (r.span span))) := by
  cases same with
  | none => exact ConstantsFollow.nullAt span
  | some same => exact same

theorem follows_readAttributeValue
    {name : String}
    (follows : DelegateBehind.Follows r R delegate delegate')
    (aligned : r.Aligned start start')
    (visible : ∀ ch, start.peek? = some ch → isBlank ch = false) :
    Ending.Follows r R (readAttributeValue delegate modes start ahead name)
      (readAttributeValue delegate' modes start' ahead' name) := by
  unfold readAttributeValue
  rw [Rendering.peek?_eq aligned visible]
  split <;> rename_i opened
  · exact .afterRead (follows_readQuotedValue aligned opened rfl) fun _ _ _ _ _ _ same aligned' =>
      .success same aligned'
  · exact .afterRead (follows_readQuotedValue aligned opened rfl) fun _ _ _ _ _ _ same aligned' =>
      .success same aligned'
  · refine (follows_readHole follows (Rendering.advance aligned opened rfl)).andThen ?_
    intro _ _ _ _ _ _ _ same aligned'
    rw [Rendering.spanTo_eq aligned aligned']
    exact .success (rel_getD_nullAt same) aligned'
  · exact .failure (Fault.follows_markup aligned)

theorem follows_readAttribute
    {tag : String}
    (follows : DelegateBehind.Follows r R delegate delegate')
    (aligned : r.Aligned start start')
    (visible : ∀ ch, start.peek? = some ch → isBlank ch = false) :
    Ending.Follows r
      (fun item item' => AttributeItem.Follows r R (.named item) (.named item'))
      (readAttribute delegate modes start ahead tag)
      (readAttribute delegate' modes start' ahead' tag) := by
  have spelling : start'.textWhile (!isNameDelimiter ·) = start.textWhile (!isNameDelimiter ·) := by
    rw [Cursor.textWhile, Cursor.textWhile, r.rest_eq aligned,
      LineEnds.takeWhile_write_inLine (p := (!isNameDelimiter ·)) rfl rfl]
  unfold readAttribute
  rw [Rendering.peek?_eq aligned visible]
  split <;> rename_i spelled
  all_goals
    refine .second_alone ?_
    intro first same
    split <;> rename_i spelled' <;> rw [spelling, spelled] at spelled' <;> cases spelled'
    subst same
  · exact .failure (Fault.follows_markup aligned)
  · rename_i first more
    have opens : first :: more <+: start.rest := spelled ▸ List.takeWhile_prefix _
    have inLine : InLine (first :: more) :=
      spelled ▸ inLine_takeWhile (p := (!isNameDelimiter ·)) rfl rfl
    have named := Rendering.advanceBy_length aligned opens inLine
    have equality := Rendering.eat? (Rendering.skipBlanks named) (@rfl _ (isLineEnd '='))
    rw [List.length_cons] at named equality
    dsimp only
    split
    · exact .failure (Fault.follows_markup aligned)
    · split <;> rename_i equals <;> rw [equals] at equality <;> split <;> rename_i equals' <;>
        rw [equals'] at equality <;> cases equality
      · rw [Rendering.spanTo_eq aligned named]
        exact .success (.named (ConstantsFollow.trueAt _)) named
      · rename_i behind behind' entered
        refine (follows_readAttributeValue follows (Rendering.skipBlanks entered)
          behind.visible_skipBlanks).andThen ?_
        intro _ _ _ _ _ _ _ same aligned'
        rw [Rendering.spanTo_eq aligned aligned']
        exact .success (.named same) aligned'

/-- The entries of a header are read one after the other. -/
theorem follows_readHeaderTail
    {tag : String}
    {opened opened' : Position}
    (follows : DelegateBehind.Follows r R delegate delegate')
    (moved : opened' = r.place opened)
    (aligned : r.Aligned start start') :
    Ending.Follows r (HeaderTail.Follows r R)
      (readHeaderTail delegate modes start ahead tag opened)
      (readHeaderTail delegate' modes start' ahead' tag opened') := by
  induction size : start.size using Nat.strongRecOn generalizing start start' modes with
  | ind size shorter =>
      subst size
      have here := Rendering.skipBlanks aligned
      have visible := start.visible_skipBlanks
      have nexts := Rendering.peek?_eq here visible
      have skipped := Cursor.size_le_of_le start.le_skipBlanks
      rw [readHeaderTail, readHeaderTail]
      dsimp only
      split <;> rename_i next
      all_goals
        refine .second_alone ?_
        intro first same
        split <;> rename_i next' <;> rw [nexts, next] at next' <;> cases next' <;>
          try contradiction
        subst same
      · exact .failure (Fault.follows_of_place moved)
      · exact .success ⟨.nil, rfl⟩ (Rendering.advance here next rfl)
      · have closing := @Rendering.eatText? r _ _ "/>" here (by decide)
        split <;> rename_i closed <;> rw [closed] at closing <;> split <;> rename_i closed' <;>
          rw [closed'] at closing <;> cases closing
        · rename_i aligned'
          exact .success ⟨.nil, rfl⟩ aligned'
        · exact .failure (Fault.follows_markup here)
      · have entered := Cursor.size_lt_of_lt (Cursor.lt_advance next)
        refine (follows_readSpread follows (Rendering.advance here next rfl)).andThen ?_
        intro _ _ _ behind behind' read _ same aligned'
        have fewer := Cursor.size_lt_of_lt read
        refine ((shorter _ (by omega) aligned' rfl).map fun _ _ more => ?_).weaken
        rw [Rendering.spanTo_eq here aligned']
        exact ⟨.cons (.spread same) more.attributes, more.ending⟩
      · refine (follows_readAttribute follows here visible).andThen ?_
        intro _ _ _ behind behind' read _ same aligned'
        have fewer := Cursor.size_lt_of_lt read
        exact ((shorter _ (by omega) aligned' rfl).map fun _ _ more =>
          ⟨.cons same more.attributes, more.ending⟩).weaken

theorem follows_readHeader
    {opened opened' : Position}
    (follows : DelegateBehind.Follows r R delegate delegate')
    (moved : opened' = r.place opened)
    (aligned : r.Aligned start start') :
    Ending.Follows r (Header.Follows r R) (readHeader delegate modes start ahead opened)
      (readHeader delegate' modes start' ahead' opened') := by
  have here := Rendering.skipBlanks aligned
  have ending := Rendering.eat? here (@rfl _ (isLineEnd '>'))
  unfold readHeader
  dsimp only
  split <;> rename_i fragment <;> rw [fragment] at ending <;> split <;> rename_i fragment' <;>
    rw [fragment'] at ending <;> cases ending
  · rename_i aligned'
    exact .success ⟨rfl, .nil, rfl⟩ aligned'
  · refine .afterRead (follows_readTagName here start.visible_skipBlanks) ?_
    intro name _ named named' _ _ same aligned'
    subst same
    exact ((follows_readHeaderTail follows moved aligned').map fun _ _ tail =>
      ⟨rfl, tail.attributes, tail.ending⟩).weaken

theorem follows_readBraces
    (follows : DelegateBehind.Follows r R delegate delegate')
    (opened : start.peek? = some '\x7b')
    (aligned : r.Aligned start start') :
    Ending.Follows r (Child.Follows r R) (readBraces delegate modes start ahead)
      (readBraces delegate' modes start' ahead') := by
  have inside := Rendering.advance aligned opened rfl
  have comment := follows_readComment? aligned
  unfold readBraces
  split <;> rename_i found <;> rw [found] at comment <;> split <;> rename_i found' <;>
    rw [found'] at comment <;> cases comment
  · rename_i same
    exact .failure same
  · rename_i same aligned'
    exact .success (.comment same) aligned'
  · dsimp only
    rw [r.rest_eq inside, LineEnds.startsSpread_write]
    split
    · exact .failure (Fault.follows_markup aligned)
    · refine (follows_readHole follows inside).andThen ?_
      intro _ _ _ _ _ _ _ same aligned'
      rw [Rendering.spanTo_eq aligned aligned']
      exact .success (.hole (rel_getD_nullAt same)) aligned'

end Readers

/-- The same characters make the same literal text. -/
theorem follows_literalText
    (aligned : r.Aligned start start')
    (length : Nat)
    (left right : Boundary) :
    List.Forall₂ (Child.Follows r R) (literalText start length left right)
      (literalText start' (r.ends.reach start.rest length) left right) := by
  unfold literalText
  rw [r.rest_eq aligned, LineEnds.take_write, LineEnds.normalizeText_write]
  split
  · rw [Rendering.spanTo_eq aligned (r.aligned_advanceBy aligned length)]
    exact .cons .text .nil
  · exact .nil

theorem follows_closeElement
    {header : Header ε}
    {header' : Header ε'}
    {content : Content ε}
    {content' : Content ε'}
    {stop stop' : Cursor}
    {passed : start < stop}
    {passed' : start' < stop'}
    (same : header.Follows r R header')
    (inner : content.Follows r R content')
    (aligned : r.Aligned start start')
    (aligned' : r.Aligned stop stop') :
    Ending.Follows r (Element.Follows r R) (closeElement header content modes start stop passed)
      (closeElement header' content' modes start' stop' passed') := by
  refine .afterStep ModeStack.isPlaced_closeTag aligned' fun _ modes => ?_
  rw [same.name, inner.closing, Rendering.spanTo_eq aligned aligned', Element.closed,
    Element.closed]
  by_cases repeated : content.2 = header.name
  · rw [if_pos repeated, if_pos repeated]
    exact .success (.mk same.attributes inner.children) aligned'
  · rw [if_neg repeated, if_neg repeated]
    exact .failure (Fault.follows_markup aligned)

section Elements

variable
  [HostConstants ε]
  [HostConstants ε']
  [ConstantsFollow r R]
  {delegate : DelegateBehind ε limit}
  {delegate' : DelegateBehind ε' limit'}
  (follows : DelegateBehind.Follows r R delegate delegate')

include follows

mutual

/-- An element is read in both runs, or fails to be read in both. -/
theorem follows_readElementBehind
    {modes : ModeStack}
    {start start' : Cursor}
    {ahead : limit ≤ start}
    {ahead' : limit' ≤ start'}
    (aligned : r.Aligned start start') :
    Ending.Follows r (Element.Follows r R) (readElementBehind delegate modes start ahead)
      (readElementBehind delegate' modes start' ahead') := by
  have opening := Rendering.eat? aligned (@rfl _ (isLineEnd '<'))
  have moved := r.position_eq aligned
  rw [readElementBehind, readElementBehind]
  split <;> rename_i opened <;> rw [opened] at opening <;> split <;> rename_i opened' <;>
    rw [opened'] at opening <;> cases opening
  · exact .failure (Fault.follows_markup aligned)
  · rename_i inside inside' entered
    refine .afterStep ModeStack.isPlaced_openTag aligned fun _ modes => ?_
    refine (follows_readHeader follows moved entered).andThen ?_
    intro header header' modes behind behind' read _ same aligned'
    have passed := Cursor.lt_trans (Cursor.lt_of_eat? opened) read
    dsimp only
    rw [same.ending]
    split
    · refine .afterStep ModeStack.isPlaced_selfClose aligned' fun _ modes => ?_
      rw [same.name, Rendering.spanTo_eq aligned aligned']
      exact .success (.mk same.attributes .nil) aligned'
    · refine .afterStep ModeStack.isPlaced_enterContent aligned' fun _ modes => ?_
      rw [same.name]
      refine (follows_readContentBehind moved aligned').andThen ?_
      intro content content' modes stop stop' _ _ inner aligned''
      exact follows_closeElement same inner aligned aligned''
termination_by (start.size, 0)
decreasing_by exact Prod.Lex.left _ _ (Cursor.size_lt_of_lt passed)

/-- Content is read child after child in both runs. -/
theorem follows_readContentBehind
    {modes : ModeStack}
    {start start' : Cursor}
    {ahead : limit < start}
    {ahead' : limit' < start'}
    {name : String}
    {opened opened' : Position}
    {left : Boundary}
    (moved : opened' = r.place opened)
    (aligned : r.Aligned start start') :
    Ending.Follows r (Content.Follows r R)
      (readContentBehind delegate modes start ahead name opened left)
      (readContentBehind delegate' modes start' ahead' name opened' left) := by
  have nexts : ContentMark.next start'.rest =
      (r.ends.reach start.rest (ContentMark.next start.rest).1,
        (ContentMark.next start.rest).2) := by
    rw [r.rest_eq aligned, LineEnds.contentMark_next_write]
  have mark : (ContentMark.next start'.rest).2 = (ContentMark.next start.rest).2 := by
    rw [nexts]
  have here : r.Aligned (start.advanceBy (ContentMark.next start.rest).1)
      (start'.advanceBy (ContentMark.next start'.rest).1) := by
    rw [nexts]
    exact r.aligned_advanceBy aligned _
  have texts (right : Boundary) : List.Forall₂ (Child.Follows r R)
      (literalText start (ContentMark.next start.rest).1 left right)
      (literalText start' (ContentMark.next start'.rest).1 left right) := by
    rw [nexts]
    exact follows_literalText aligned _ left right
  have reached := start.le_advanceBy (ContentMark.next start.rest).1
  have unmarked := ContentMark.unmarked_of_next (@rfl _ (ContentMark.next start.rest))
  rw [readContentBehind, readContentBehind]
  dsimp only
  rw [mark]
  split <;> rename_i marked <;> rw [marked] at unmarked
  · exact .failure (Fault.follows_of_place moved)
  · obtain ⟨more, opens⟩ := ContentMark.exists_of_next_closingTag unmarked.2.2
    have tag : "</".toList <+: (start.advanceBy (ContentMark.next start.rest).1).rest := by
      rw [Cursor.rest_advanceBy, opens]
      exact List.prefix_append _ more
    refine .afterRead (follows_readClosingTag here tag) ?_
    intro closing _ stop stop' _ _ same aligned'
    subst same
    exact .success ⟨texts _, rfl⟩ aligned'
  · refine (follows_readElementBehind here).andThen ?_
    intro element element' modes behind behind' read _ same aligned'
    have passed : start < behind := Cursor.lt_of_le_of_lt reached read
    refine ((follows_readContentBehind moved aligned').map fun _ _ more => ?_).weaken
    exact more.prepend (List.rel_append (texts _) (.cons (.element same) .nil))
  · have brace : (start.advanceBy (ContentMark.next start.rest).1).peek? = some '\x7b' := by
      obtain ⟨more, opens⟩ := ContentMark.exists_of_next_brace unmarked.2.2
      rw [Cursor.peek?, Cursor.rest_advanceBy, opens]
      rfl
    refine (follows_readBraces follows brace here).andThen ?_
    intro child child' modes behind behind' read _ same aligned'
    have passed : start < behind := Cursor.lt_of_le_of_lt reached read
    refine ((follows_readContentBehind moved aligned').map fun _ _ more => ?_).weaken
    exact more.prepend (List.rel_append (texts _) (.cons same .nil))
termination_by (start.size, 1)
decreasing_by
  · rcases Nat.lt_or_eq_of_le (Cursor.size_le_of_le reached) with less | same
    · exact Prod.Lex.left _ _ less
    · rw [same]
      exact Prod.Lex.right _ Nat.zero_lt_one
  · exact Prod.Lex.left _ _ (Cursor.size_lt_of_lt passed)
  · exact Prod.Lex.left _ _ (Cursor.size_lt_of_lt passed)

end

end Elements

end EmbeddedMarkup
