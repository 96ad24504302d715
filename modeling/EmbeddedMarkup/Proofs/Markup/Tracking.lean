import EmbeddedMarkup.Proofs.Markup.Copy
import EmbeddedMarkup.Proofs.Markup.Restoration
import EmbeddedMarkup.Proofs.Reading.Tracking

/-!
# Two runs of the readers of markup

The readers of markup track themselves when their delegates do.  What they had of the budget when
it was used up is bounded by the characters ahead: a tag takes a level and at least two characters,
and its `<` alone pays for the level, so strictly less than a level for each character is enough.
A hole takes a character and no level.
-/

namespace EmbeddedMarkup

variable
  {shift : Shift}
  {budget : Nat}
  {P P' : Cursor → Prop}
  {limit limit' start start' : Cursor}
  {modes : ModeStack}

section Respan

variable (f : Span → Span)

/-- An attribute with all its spans changed. -/
def Attribute.respan (item : Attribute Expression) : Attribute Expression :=
  ⟨item.name, item.value.respan f, f item.span⟩

/-- The entries of a header with all their spans changed. -/
def HeaderTail.respan (tail : HeaderTail Expression) : HeaderTail Expression :=
  (tail.1.map (AttributeItem.respan f), tail.2)

/-- A header with all its spans changed. -/
def Header.respan (header : Header Expression) : Header Expression :=
  ⟨header.name, header.attributes.map (AttributeItem.respan f), header.ending⟩

/-- The content of an element with all its spans changed. -/
def Content.respan (content : Content Expression) : Content Expression :=
  (content.1.map (Child.respan f), content.2)

theorem Content.respan_prepend
    (children : List (Child Expression))
    (content : Content Expression) :
    (content.prepend children).respan f =
      (content.respan f).prepend (children.map (Child.respan f)) := by
  simp [Content.prepend, Content.respan]

end Respan

section Readings

theorem tracks_readHoleEnd (aligned : start' = shift.cursor start) :
    ReadTracks shift id (readHoleEnd start) (readHoleEnd start') := by
  subst aligned
  unfold readHoleEnd
  rw [Shift.isAtEnd_cursor]
  split <;> rename_i closed
  · split <;> rename_i closed' <;> rw [Shift.eat?_cursor, closed] at closed' <;> cases closed'
    exact .ok rfl rfl
  · split
    · split <;> rename_i closed' <;> rw [Shift.eat?_cursor, closed] at closed' <;> cases closed'
      exact .error (Fault.not_isExcess_markup _ _)
    · split <;> rename_i closed' <;> rw [Shift.eat?_cursor, closed] at closed' <;> cases closed'
      exact .error (Fault.not_isExcess_markup _ _)

theorem tracks_readQuotedValue {quote : Char} (aligned : start' = shift.cursor start) :
    ReadTracks shift (Expression.respan shift.span)
      (readQuotedValue (ε := Expression) start quote) (readQuotedValue start' quote) := by
  subst aligned
  unfold readQuotedValue
  dsimp only
  split <;> rename_i closed
  · split <;> rename_i closed' <;>
      rw [Shift.advance_cursor, Shift.textWhile_cursor, Shift.advanceBy_cursor, Shift.eat?_cursor,
        closed] at closed' <;>
      cases closed'
    exact .error (Fault.not_isExcess_markup _ _)
  · split <;> rename_i closed' <;>
      rw [Shift.advance_cursor, Shift.textWhile_cursor, Shift.advanceBy_cursor, Shift.eat?_cursor,
        closed] at closed' <;>
      cases closed'
    refine .ok ?_ rfl
    rw [Shift.advance_cursor, Shift.textWhile_cursor, Shift.spanTo_cursor]
    symm
    exact Expression.respan_mk _ _ _

theorem tracks_readDottedName (aligned : start' = shift.cursor start) :
    ReadTracks shift id (readDottedName start) (readDottedName start') := by
  subst aligned
  unfold readDottedName
  simp only [Shift.rest_cursor, Shift.advanceBy_cursor]
  split
  · exact .ok rfl rfl
  · exact .error (Fault.not_isExcess_markup _ _)

theorem tracks_readTagName (aligned : start' = shift.cursor start) :
    ReadTracks shift id (readTagName start) (readTagName start') := by
  have named := tracks_readDottedName aligned
  subst aligned
  unfold readTagName
  rw [Shift.rest_cursor]
  split
  · exact named
  · exact .error (Fault.not_isExcess_markup _ _)

theorem tracks_readClosingName (aligned : start' = shift.cursor start) :
    ReadTracks shift id (readClosingName start) (readClosingName start') := by
  have named := tracks_readDottedName aligned
  subst aligned
  unfold readClosingName
  rw [Shift.rest_cursor]
  split
  · exact named
  · exact .ok rfl rfl

theorem tracks_readClosingTag {name : String} (aligned : start' = shift.cursor start) :
    ReadTracks shift id (readClosingTag start name) (readClosingTag start' name) := by
  have inside : (start'.advanceBy 2).skipBlanks =
      shift.cursor (start.advanceBy 2).skipBlanks := by
    simp [aligned]
  have named := tracks_readClosingName inside
  subst aligned
  unfold readClosingTag
  dsimp only
  generalize readClosingName (start.advanceBy 2).skipBlanks = reading at named
  generalize readClosingName ((shift.cursor start).advanceBy 2).skipBlanks = reading' at named
  cases named with
  | error own => exact .error own
  | @ok closing closing' stop stop' _ _ value aligned =>
      subst value aligned
      have atEnd : (shift.cursor stop).skipBlanks.isAtEnd = stop.skipBlanks.isAtEnd := by
        rw [Shift.skipBlanks_cursor, Shift.isAtEnd_cursor]
      dsimp only [id]
      rw [atEnd]
      split
      · exact .error (Fault.not_isExcess_markup _ _)
      · split <;> rename_i ended
        · split <;> rename_i ended' <;>
            rw [Shift.skipBlanks_cursor, Shift.eat?_cursor, ended] at ended' <;>
            cases ended'
          exact .ok rfl rfl
        · split
          · split <;> rename_i ended' <;>
              rw [Shift.skipBlanks_cursor, Shift.eat?_cursor, ended] at ended' <;>
              cases ended'
            exact .error (Fault.not_isExcess_markup _ _)
          · split <;> rename_i ended' <;>
              rw [Shift.skipBlanks_cursor, Shift.eat?_cursor, ended] at ended' <;>
              cases ended'
            rw [Shift.skipBlanks_cursor]
            exact .error (Fault.not_isExcess_markup _ _)

/-- The outcomes of looking for a comment in a pair of braces, in two runs. -/
inductive CommentTracks (shift : Shift) :
    Except Fault (Option (Read P Comment)) → Except Fault (Option (Read P' Comment)) → Prop
  | found {comment : Read P Comment} {comment' : Read P' Comment} :
      comment'.value = comment.value.respan shift.span →
      comment'.stop = shift.cursor comment.stop →
      CommentTracks shift (.ok (some comment)) (.ok (some comment'))
  | absent : CommentTracks shift (.ok none) (.ok none)
  | error {fault : Fault} :
      ¬fault.IsExcess →
      CommentTracks shift (.error fault) (.error (shift.fault fault))

theorem tracks_readComment? (aligned : start' = shift.cursor start) :
    CommentTracks shift (readComment? start) (readComment? start') := by
  subst aligned
  unfold readComment?
  split <;> rename_i opened <;> split <;> rename_i opened' <;>
    rw [Shift.eat?_cursor, opened] at opened' <;>
    cases opened'
  · exact .absent
  · rename_i inside
    have skipped : (shift.cursor inside).skipBlanks = shift.cursor inside.skipBlanks :=
      Shift.skipBlanks_cursor _ _
    dsimp only
    have starts : (shift.cursor inside).skipBlanks.startsWith "/*" =
        inside.skipBlanks.startsWith "/*" := by
      rw [skipped, Shift.startsWith_cursor]
    have rest : (shift.cursor inside).skipBlanks.rest = inside.skipBlanks.rest := by
      rw [skipped, Shift.rest_cursor]
    rw [starts]
    split
    · simp only [rest]
      split
      · rw [skipped]
        exact .error (Fault.not_isExcess_markup _ _)
      · rename_i tail _
        have behind : ((shift.cursor inside).skipBlanks.advanceBy (tail + 2)).skipBlanks =
            shift.cursor (inside.skipBlanks.advanceBy (tail + 2)).skipBlanks := by
          rw [skipped, Shift.advanceBy_cursor, Shift.skipBlanks_cursor]
        split <;> rename_i closed <;> split <;> rename_i closed' <;>
          rw [behind, Shift.eat?_cursor, closed] at closed' <;>
          cases closed'
        · exact .absent
        · refine .found ?_ rfl
          rw [Shift.spanTo_cursor]
          rfl
    · exact .absent

end Readings

/-- Two delegates of which the second tracks the first one. -/
def DelegateBehind.Tracks
    (shift : Shift)
    (budget : Nat)
    (delegate : DelegateBehind Expression limit)
    (delegate' : DelegateBehind Expression limit') : Prop :=
  ∀ modes start start' ahead ahead', modes.frames ≠ [] → modes.budget ≤ budget →
    start' = shift.cursor start →
    Ending.Tracks shift budget (modes.levels ≤ start.size) (Expression.respan shift.span) modes
      (delegate modes start ahead) (delegate' (modes.withBudget budget) start' ahead')

section Readers

variable
  {delegate : DelegateBehind Expression limit}
  {delegate' : DelegateBehind Expression limit'}
  {owner : HoleOwner}
  {depth : Nat}
  {ahead : limit < start}
  {ahead' : limit' < start'}

/-- The brace behind a hole leads back to the tag that the hole was opened on. -/
theorem tracks_leaveHole
    {α : Type}
    {f : α → α}
    {value value' : α}
    (inside : modes.mode = owner.frame depth)
    (same : value' = f value)
    (aligned : start' = shift.cursor start) :
    Ending.Tracks shift budget False f modes
      (leaveHole value (modes.push (.expressionHole depth owner)) start)
      (leaveHole value' ((modes.push (.expressionHole depth owner)).withBudget budget)
        start') := by
  refine .afterRead (tracks_readHoleEnd (by rw [aligned, Shift.skipBlanks_cursor])) ?_
  intro _ stop stop' _ _ aligned
  exact .afterStep (ModeStack.closeHole_push inside)
    (@ModeStack.closeHole_push (modes.withBudget budget) _ _ _ inside) (.success same aligned)

theorem tracks_readHoleExpression
    (tracks : DelegateBehind.Tracks shift budget delegate delegate')
    (within : modes.budget ≤ budget)
    (inside : modes.mode = owner.frame depth)
    (aligned : start' = shift.cursor start) :
    Ending.Tracks shift budget (modes.levels ≤ start.size) (Expression.respan shift.span) modes
      (readHoleExpression delegate (modes.push (.expressionHole depth owner)) start ahead)
      (readHoleExpression delegate' ((modes.push (.expressionHole depth owner)).withBudget budget)
        start' ahead') := by
  have first := tracks (modes.push (.expressionHole depth owner)) start start' ahead ahead'
    (modes.frames_push_ne_nil _) within aligned
  rw [ModeStack.levels_push_hole inside] at first
  refine first.andThen rfl ?_
  intro value stop stop' _ _ aligned
  exact ((tracks_leaveHole inside rfl aligned).mono False.elim).weaken

/-- A hole is opened on a tag, whatever the budget is. -/
theorem openHole_withBudget (inside : modes.mode = owner.frame depth) (position : Position) :
    ModeStack.openHole position (modes.withBudget budget) =
      .ok () ((modes.push (.expressionHole depth owner)).withBudget budget) :=
  @openHole_eq_push (modes.withBudget budget) _ _ inside position

theorem tracks_readHole
    (tracks : DelegateBehind.Tracks shift budget delegate delegate')
    (within : modes.budget ≤ budget)
    (inside : modes.mode = owner.frame depth)
    (aligned : start' = shift.cursor start) :
    Ending.Tracks shift budget (modes.levels ≤ start.size)
      (Option.map (Expression.respan shift.span)) modes
      (readHole delegate modes start ahead)
      (readHole delegate' (modes.withBudget budget) start' ahead') := by
  have skipped : start'.skipBlanks = shift.cursor start.skipBlanks := by
    rw [aligned, Shift.skipBlanks_cursor]
  have fewer := Cursor.size_le_of_le start.le_skipBlanks
  refine .afterStep (openHole_eq_push inside _) (openHole_withBudget inside _) ?_
  have next : start'.skipBlanks.peek? = start.skipBlanks.peek? := by
    rw [skipped, Shift.peek?_cursor]
  dsimp only
  rw [next]
  split
  · exact ((tracks_leaveHole inside rfl skipped).mono False.elim).weaken
  · refine Ending.Tracks.weaken (Ending.Tracks.map ?_ fun _ => rfl)
    refine (tracks_readHoleExpression tracks within inside skipped).mono ?_
    omega

theorem tracks_readSpread
    (tracks : DelegateBehind.Tracks shift budget delegate delegate')
    (within : modes.budget ≤ budget)
    (inside : modes.mode = owner.frame depth)
    (aligned : start' = shift.cursor start) :
    Ending.Tracks shift budget (modes.levels ≤ start.size) (Expression.respan shift.span) modes
      (readSpread delegate modes start ahead)
      (readSpread delegate' (modes.withBudget budget) start' ahead') := by
  refine .afterStep (openHole_eq_push inside _) (openHole_withBudget inside _) ?_
  have skipped : start'.skipBlanks = shift.cursor start.skipBlanks := by
    rw [aligned, Shift.skipBlanks_cursor]
  split <;> rename_i dots <;> split <;> rename_i dots' <;>
    rw [skipped, Shift.eatText?_cursor, dots] at dots' <;>
    cases dots'
  · exact .markup (congrArg Cursor.position skipped)
  · rename_i behind
    have entered : start ≤ behind.skipBlanks :=
      Cursor.le_trans start.le_skipBlanks
        (Cursor.le_trans (Cursor.le_of_lt (Cursor.lt_of_eatText? (by decide) dots))
          behind.le_skipBlanks)
    have fewer := Cursor.size_le_of_le entered
    refine Ending.Tracks.weaken ?_
    refine (tracks_readHoleExpression tracks within inside (Shift.skipBlanks_cursor _ _)).mono ?_
    omega

/-- A tag opens in both runs, or the budget is used up, or the modes allow no tag. -/
theorem tracks_openTag
    {α : Type}
    {f : α → α}
    {position position' : Position}
    {short : Prop}
    {next : Nat → ModeStack → Outcome P α}
    {next' : Nat → ModeStack → Outcome P' α}
    (within : modes.budget ≤ budget)
    (moved : position' = shift.position position)
    (exhausted : modes.levels = 0 → short)
    (second : Ending.Tracks shift budget short f modes
      (next (modes.depth + 1) (modes.push (.tagHeader (modes.depth + 1))))
      (next' (modes.depth + 1)
        ((modes.push (.tagHeader (modes.depth + 1))).withBudget budget))) :
    Ending.Tracks shift budget short f modes
      (Outcome.afterStep (ModeStack.openTag position) modes next)
      (Outcome.afterStep (ModeStack.openTag position') (modes.withBudget budget) next') := by
  subst moved
  by_cases allowed : modes.AllowsTags
  · rcases Nat.eq_zero_or_pos modes.levels with none_left | enough
    · have refused (place : Position) := @ModeStack.openTag_eq_error _ place allowed none_left
      rcases Nat.lt_or_eq_of_le within with less | rfl
      · rw [Outcome.afterStep, refused]
        exact .exceeded (exhausted none_left) less ⟨rfl, .inl rfl⟩
      · rw [ModeStack.withBudget_self, Outcome.afterStep, Outcome.afterStep, refused, refused]
        exact .failure fun different => absurd rfl different
    · have enough' := Nat.lt_of_lt_of_le enough (ModeStack.levels_withBudget within)
      exact .afterStep (ModeStack.openTag_eq_ok.mpr ⟨allowed, enough, rfl, rfl⟩)
        (ModeStack.openTag_eq_ok.mpr ⟨allowed, enough', rfl, rfl⟩) second
  · obtain ⟨depth, header⟩ : ∃ depth, modes.mode = .tagHeader depth := by
      unfold ModeStack.AllowsTags at allowed
      simpa using allowed
    rw [Outcome.afterStep, Outcome.afterStep, ModeStack.openTag_eq_refuse header,
      @ModeStack.openTag_eq_refuse (modes.withBudget budget) _ _ header]
    exact .failure fun _ => Fault.not_isExcess_notAllowed _ _ _

/-- A closing tag leads back to where its element was opened. -/
theorem tracks_closeElement
    {header : Header Expression}
    {content : Content Expression}
    {stop stop' : Cursor}
    {passed : start < stop}
    {passed' : start' < stop'}
    (proper : modes.frames ≠ [])
    (aligned : start' = shift.cursor start)
    (aligned' : stop' = shift.cursor stop) :
    Ending.Tracks shift budget False (Element.respan shift.span) modes
      (closeElement header content (modes.push (.tagContent depth)) start stop passed)
      (closeElement (header.respan shift.span) (content.respan shift.span)
        ((modes.push (.tagContent depth)).withBudget budget) start' stop' passed') := by
  refine .afterStep (ModeStack.closeTag_push proper)
    (@ModeStack.closeTag_push (modes.withBudget budget) _ _ proper) ?_
  by_cases repeated : content.2 = header.name
  · have repeated' : (content.respan shift.span).2 = (header.respan shift.span).name := repeated
    rw [Element.closed, Element.closed, if_pos repeated, if_pos repeated']
    refine .success ?_ aligned'
    rw [Element.respan_mk, aligned, aligned', Shift.spanTo_cursor]
    rfl
  · have repeated' : (content.respan shift.span).2 ≠ (header.respan shift.span).name := repeated
    rw [Element.closed, Element.closed, if_neg repeated, if_neg repeated']
    exact .markup (congrArg Cursor.position aligned)

theorem tracks_readAttributeValue
    {name : String}
    (tracks : DelegateBehind.Tracks shift budget delegate delegate')
    (within : modes.budget ≤ budget)
    (inside : modes.mode = owner.frame depth)
    (aligned : start' = shift.cursor start) :
    Ending.Tracks shift budget (modes.levels < start.size) (Expression.respan shift.span) modes
      (readAttributeValue delegate modes start ahead name)
      (readAttributeValue delegate' (modes.withBudget budget) start' ahead' name) := by
  have next : start'.peek? = start.peek? := by
    rw [aligned, Shift.peek?_cursor]
  unfold readAttributeValue
  rw [next]
  split
  · exact .afterRead (tracks_readQuotedValue aligned) fun _ _ _ _ _ aligned =>
      .success rfl aligned
  · exact .afterRead (tracks_readQuotedValue aligned) fun _ _ _ _ _ aligned =>
      .success rfl aligned
  · rename_i opened
    have fewer := Cursor.size_lt_of_lt (Cursor.lt_advance opened)
    have inner : start'.advance = shift.cursor start.advance := by
      rw [aligned, Shift.advance_cursor]
    refine ((tracks_readHole tracks within inside inner).mono (by omega)).andThen rfl ?_
    intro part stop stop' _ _ aligned'
    refine .success ?_ aligned'
    rw [aligned, aligned', Shift.spanTo_cursor, respan_getD_nullAt]
  · exact .markup (congrArg Cursor.position aligned)

theorem tracks_readAttribute
    {tag : String}
    (tracks : DelegateBehind.Tracks shift budget delegate delegate')
    (within : modes.budget ≤ budget)
    (inside : modes.mode = owner.frame depth)
    (aligned : start' = shift.cursor start) :
    Ending.Tracks shift budget (modes.levels < start.size) (Attribute.respan shift.span) modes
      (readAttribute delegate modes start ahead tag)
      (readAttribute delegate' (modes.withBudget budget) start' ahead' tag) := by
  unfold readAttribute
  split <;> rename_i spelled
  all_goals
    refine .second_alone ?_
    intro first same
    split <;> rename_i spelled' <;> rw [aligned, Shift.textWhile_cursor, spelled] at spelled' <;>
      cases spelled'
    subst same
  · rw [aligned]
    exact .markup rfl
  · rename_i first more
    have named : start'.advanceBy (more.length + 1) =
        shift.cursor (start.advanceBy (more.length + 1)) := by
      rw [aligned, Shift.advanceBy_cursor]
    dsimp only
    split
    · rw [aligned]
      exact .markup rfl
    · split <;> rename_i equals <;> split <;> rename_i equals' <;>
        rw [named, Shift.skipBlanks_cursor, Shift.eat?_cursor, equals] at equals' <;>
        cases equals'
      · refine .success ?_ named
        rw [aligned, Shift.advanceBy_cursor, Shift.spanTo_cursor]
        rfl
      · rename_i behind
        have valued : start ≤ behind.skipBlanks :=
          Cursor.le_trans
            (Cursor.le_trans (start.le_advanceBy _) (Cursor.le_skipBlanks _))
            (Cursor.le_trans (Cursor.le_of_lt (Cursor.lt_of_eat? equals)) behind.le_skipBlanks)
        have fewer := Cursor.size_le_of_le valued
        refine Ending.Tracks.andThen ((tracks_readAttributeValue tracks within inside
          (Shift.skipBlanks_cursor _ _)).mono (by omega)) rfl ?_
        intro value stop stop' _ _ aligned'
        refine .success ?_ aligned'
        rw [Attribute.respan, aligned, aligned', Shift.spanTo_cursor]

/-- The entries of a header are read one after the other. -/
theorem tracks_readHeaderTail
    {tag : String}
    {opened opened' : Position}
    (tracks : DelegateBehind.Tracks shift budget delegate delegate')
    (within : modes.budget ≤ budget)
    (inside : modes.mode = owner.frame depth)
    (moved : opened' = shift.position opened)
    (aligned : start' = shift.cursor start) :
    Ending.Tracks shift budget (modes.levels < start.size) (HeaderTail.respan shift.span) modes
      (readHeaderTail delegate modes start ahead tag opened)
      (readHeaderTail delegate' (modes.withBudget budget) start' ahead' tag opened') := by
  induction size : start.size using Nat.strongRecOn generalizing start start' with
  | ind size shorter =>
      subst size
      have here : start'.skipBlanks = shift.cursor start.skipBlanks := by
        rw [aligned, Shift.skipBlanks_cursor]
      have inner : start'.skipBlanks.advance = shift.cursor start.skipBlanks.advance := by
        rw [here, Shift.advance_cursor]
      have next_eq : start'.skipBlanks.peek? = start.skipBlanks.peek? := by
        rw [here, Shift.peek?_cursor]
      have skipped := Cursor.size_le_of_le start.le_skipBlanks
      rw [readHeaderTail, readHeaderTail]
      dsimp only
      split <;> rename_i next
      all_goals
        refine .second_alone ?_
        intro first same
        split <;> rename_i next' <;> rw [next_eq, next] at next' <;> cases next' <;>
          try contradiction
        subst same
      · exact .markup moved
      · exact .success rfl inner
      · split <;> rename_i closed <;> split <;> rename_i closed' <;>
          rw [here, Shift.eatText?_cursor, closed] at closed' <;>
          cases closed'
        · exact .success rfl rfl
        · exact .markup (congrArg Cursor.position here)
      · have entered := Cursor.size_lt_of_lt (Cursor.lt_advance next)
        refine Ending.Tracks.andThen ((tracks_readSpread tracks within inside
          inner).mono (by omega)) rfl ?_
        intro expression behind behind' read _ aligned'
        have fewer := Cursor.size_lt_of_lt read
        refine Ending.Tracks.weaken (Ending.Tracks.map
          ((shorter _ (by omega) aligned' rfl).mono (by omega)) ?_)
        intro tail
        rw [here, aligned', Shift.spanTo_cursor]
        rfl
      · refine Ending.Tracks.andThen ((tracks_readAttribute tracks within inside here).mono
          (by omega)) rfl ?_
        intro item behind behind' read _ aligned'
        have fewer := Cursor.size_lt_of_lt read
        refine Ending.Tracks.weaken (Ending.Tracks.map
          ((shorter _ (by omega) aligned' rfl).mono (by omega)) ?_)
        exact fun _ => rfl

theorem tracks_readHeader
    {opened opened' : Position}
    (tracks : DelegateBehind.Tracks shift budget delegate delegate')
    (within : modes.budget ≤ budget)
    (inside : modes.mode = owner.frame depth)
    (moved : opened' = shift.position opened)
    (aligned : start' = shift.cursor start) :
    Ending.Tracks shift budget (modes.levels < start.size) (Header.respan shift.span) modes
      (readHeader delegate modes start ahead opened)
      (readHeader delegate' (modes.withBudget budget) start' ahead' opened') := by
  have here : start'.skipBlanks = shift.cursor start.skipBlanks := by
    rw [aligned, Shift.skipBlanks_cursor]
  have skipped := Cursor.size_le_of_le start.le_skipBlanks
  unfold readHeader
  dsimp only
  split <;> rename_i fragment <;> split <;> rename_i fragment' <;>
    rw [here, Shift.eat?_cursor, fragment] at fragment' <;>
    cases fragment'
  · exact .success rfl rfl
  · refine .afterRead (tracks_readTagName here) ?_
    intro name named named' passed _ aligned'
    have fewer := Cursor.size_le_of_le passed
    refine Ending.Tracks.weaken (Ending.Tracks.map
      ((tracks_readHeaderTail tracks within inside moved aligned').mono ?_) fun _ => rfl)
    omega

theorem tracks_readBraces
    (tracks : DelegateBehind.Tracks shift budget delegate delegate')
    (within : modes.budget ≤ budget)
    (inside : modes.mode = owner.frame depth)
    (opened : start.peek? = some '\x7b')
    (aligned : start' = shift.cursor start) :
    Ending.Tracks shift budget (modes.levels < start.size) (Child.respan shift.span) modes
      (readBraces delegate modes start ahead)
      (readBraces delegate' (modes.withBudget budget) start' ahead') := by
  have fewer := Cursor.size_lt_of_lt (Cursor.lt_advance opened)
  have comment := tracks_readComment? aligned
  unfold readBraces
  split <;> rename_i found <;> split <;> rename_i found' <;> rw [found, found'] at comment <;>
    cases comment
  · rename_i own
    exact .failure fun _ => own
  · rename_i value aligned
    refine .success ?_ aligned
    rw [Child.respan_comment, value]
  · have inner : start'.advance = shift.cursor start.advance := by
      rw [aligned, Shift.advance_cursor]
    have spread : startsSpread start'.advance.rest = startsSpread start.advance.rest := by
      rw [inner, Shift.rest_cursor]
    dsimp only
    rw [spread]
    split
    · exact .markup (congrArg Cursor.position aligned)
    · refine ((tracks_readHole tracks within inside inner).mono (by omega)).andThen rfl ?_
      intro part stop stop' _ _ aligned'
      refine .success ?_ aligned'
      rw [Child.respan_hole, aligned, aligned', Shift.spanTo_cursor, respan_getD_nullAt]

end Readers

/-- The same characters make the same literal text. -/
theorem literalText_of_aligned
    (aligned : start' = shift.cursor start)
    (length : Nat)
    (left right : Boundary) :
    literalText start' length left right =
      (literalText start length left right).map (Child.respan shift.span) := by
  subst aligned
  unfold literalText
  rw [Shift.rest_cursor, Shift.advanceBy_cursor, Shift.spanTo_cursor]
  split
  · rw [List.map_singleton, Child.respan_text]
    rfl
  · rfl

section Elements

variable
  {delegate : DelegateBehind Expression limit}
  {delegate' : DelegateBehind Expression limit'}
  (tracks : DelegateBehind.Tracks shift budget delegate delegate')

include tracks

mutual

/-- An element opens a tag and ends it, in its header or behind its content, in both runs. -/
theorem tracks_readElementBehind
    {modes : ModeStack}
    {start start' : Cursor}
    {ahead : limit ≤ start}
    {ahead' : limit' ≤ start'}
    (proper : modes.frames ≠ [])
    (within : modes.budget ≤ budget)
    (aligned : start' = shift.cursor start) :
    Ending.Tracks shift budget (modes.levels < start.size) (Element.respan shift.span) modes
      (readElementBehind delegate modes start ahead)
      (readElementBehind delegate' (modes.withBudget budget) start' ahead') := by
  rw [readElementBehind, readElementBehind]
  split <;> rename_i opened <;> split <;> rename_i opened' <;>
    rw [aligned, Shift.eat?_cursor, opened] at opened' <;>
    cases opened'
  · exact .markup (congrArg Cursor.position aligned)
  · rename_i inside
    have entered := Cursor.size_lt_of_lt (Cursor.lt_of_eat? opened)
    have moved : start'.position = shift.position start.position :=
      congrArg Cursor.position aligned
    have inHeader : (modes.push (.tagHeader (modes.depth + 1))).levels = modes.levels - 1 :=
      modes.levels_push_frame .tagHeader
    have inContent : (modes.push (.tagContent (modes.depth + 1))).levels = modes.levels - 1 :=
      modes.levels_push_frame .tagContent
    have headerWithin : (modes.push (.tagHeader (modes.depth + 1))).budget ≤ budget := within
    have contentWithin : (modes.push (.tagContent (modes.depth + 1))).budget ≤ budget := within
    refine tracks_openTag within moved (by omega) ?_
    have owned : (modes.push (.tagHeader (modes.depth + 1))).mode =
        HoleOwner.tagHeader.frame (modes.depth + 1) := rfl
    refine ((tracks_readHeader tracks headerWithin owned moved
      (@rfl _ (shift.cursor inside))).mono (by omega)).andThen rfl ?_
    intro header behind behind' read _ aligned'
    have passed := Cursor.lt_trans (Cursor.lt_of_eat? opened) read
    have fewer := Cursor.size_lt_of_lt passed
    have ending : (header.respan shift.span).ending = header.ending := rfl
    dsimp only
    rw [ending]
    split
    · refine .afterStep (ModeStack.selfClose_push proper)
        (@ModeStack.selfClose_push (modes.withBudget budget) _ _ proper) (.success ?_ aligned')
      rw [aligned, aligned', Shift.spanTo_cursor]
      symm
      exact Element.respan_mk _ _ _ _ _ _
    · refine .afterStep ModeStack.enterContent_push
        (@ModeStack.enterContent_push (modes.withBudget budget) _ _) ?_
      refine ((tracks_readContentBehind (modes.mode_push _) contentWithin moved aligned').mono
        (by omega)).andThen rfl ?_
      intro content stop stop' _ _ aligned''
      exact (tracks_closeElement proper aligned aligned'').mono False.elim
termination_by (start.size, 0)
decreasing_by exact Prod.Lex.left _ _ fewer

/-- Content is read child after child in both runs. -/
theorem tracks_readContentBehind
    {modes : ModeStack}
    {start start' : Cursor}
    {ahead : limit < start}
    {ahead' : limit' < start'}
    {name : String}
    {opened opened' : Position}
    {left : Boundary}
    {depth : Nat}
    (inside : modes.mode = .tagContent depth)
    (within : modes.budget ≤ budget)
    (moved : opened' = shift.position opened)
    (aligned : start' = shift.cursor start) :
    Ending.Tracks shift budget (modes.levels < start.size) (Content.respan shift.span) modes
      (readContentBehind delegate modes start ahead name opened left)
      (readContentBehind delegate' (modes.withBudget budget) start' ahead' name opened' left) := by
  have here : start'.advanceBy (ContentMark.next start'.rest).1 =
      shift.cursor (start.advanceBy (ContentMark.next start.rest).1) := by
    rw [aligned, Shift.rest_cursor, Shift.advanceBy_cursor]
  rw [readContentBehind, readContentBehind]
  have reached := start.le_advanceBy (ContentMark.next start.rest).1
  have fewer := Cursor.size_le_of_le reached
  have next : ContentMark.next start'.rest = ContentMark.next start.rest := by
    rw [aligned, Shift.rest_cursor]
  have texts := literalText_of_aligned aligned (ContentMark.next start.rest).1 left
  have unmarked := ContentMark.unmarked_of_next (@rfl _ (ContentMark.next start.rest))
  have mark : (ContentMark.next start'.rest).2 = (ContentMark.next start.rest).2 := by
    rw [next]
  dsimp only
  rw [mark]
  split <;> rename_i marked
  · exact .markup moved
  · refine .afterRead (tracks_readClosingTag here) ?_
    intro closing stop stop' _ _ aligned'
    refine .success ?_ aligned'
    rw [next, texts]
    rfl
  · have owned : modes.mode = HoleOwner.tagContent.frame depth := inside
    have proper := ModeStack.frames_ne_nil_of_mode owned
    refine ((tracks_readElementBehind proper within here).mono (by omega)).andThen rfl ?_
    intro element behind behind' read _ aligned'
    have passed : start < behind := Cursor.lt_of_le_of_lt reached read
    have fewer' := Cursor.size_lt_of_lt passed
    refine Ending.Tracks.weaken (Ending.Tracks.map
      ((tracks_readContentBehind inside within moved aligned').mono (by omega)) ?_)
    intro content
    rw [Content.respan_prepend, next, texts, List.map_append]
    rfl
  · have owned : modes.mode = HoleOwner.tagContent.frame depth := inside
    have brace : (start.advanceBy (ContentMark.next start.rest).1).peek? = some '\x7b' := by
      rw [marked] at unmarked
      obtain ⟨more, ahead⟩ := ContentMark.exists_of_next_brace unmarked.2.2
      rw [Cursor.peek?, Cursor.rest_advanceBy, ahead]
      rfl
    refine ((tracks_readBraces tracks within owned brace here).mono (by omega)).andThen rfl ?_
    intro child behind behind' read _ aligned'
    have passed : start < behind := Cursor.lt_of_le_of_lt reached read
    have fewer' := Cursor.size_lt_of_lt passed
    refine Ending.Tracks.weaken (Ending.Tracks.map
      ((tracks_readContentBehind inside within moved aligned').mono (by omega)) ?_)
    intro content
    rw [Content.respan_prepend, next, texts, List.map_append]
    rfl
termination_by (start.size, 1)
decreasing_by
  · rcases Nat.lt_or_eq_of_le fewer with less | same
    · exact Prod.Lex.left _ _ less
    · rw [same]
      exact Prod.Lex.right _ Nat.zero_lt_one
  · exact Prod.Lex.left _ _ fewer'
  · exact Prod.Lex.left _ _ fewer'

end

end Elements

end EmbeddedMarkup
