import EmbeddedMarkup.Markup.Reader
import EmbeddedMarkup.Proofs.Reading.Abandonment

/-!
# Markup that is abandoned

Markup is read with any delegate that leaves its modes alone when it succeeds and fails on them
otherwise.  Then the same holds of markup: tags and holes are closed before an element is there,
and where reading fails, those that are open stand on the modes that it started on.
-/

namespace EmbeddedMarkup

variable {ε α : Type} {P : Cursor → Prop} {limit : Cursor}

/-- The delegate leaves the modes that it finds alone, or fails on them. -/
def DelegateBehind.Spares (delegate : DelegateBehind ε limit) : Prop :=
  ∀ modes start ahead, modes.frames ≠ [] → Ending.Spares modes (delegate modes start ahead)

section Readers

variable
  {delegate : DelegateBehind ε limit}
  {modes : ModeStack}
  {owner : HoleOwner}
  {depth : Nat}
  {start : Cursor}

/-- The brace behind a hole leads back to the tag that the hole was opened on. -/
theorem spares_leaveHole {value : α} (inside : modes.mode = owner.frame depth) :
    Ending.Spares modes (leaveHole value (modes.push (.expressionHole depth owner)) start) :=
  .afterRead (ModeStack.liesUnder_push_hole inside) fun _ _ _ =>
    .afterStep (ModeStack.closeHole_push inside) .success

theorem spares_readHoleExpression
    {ahead : limit < start}
    (spares : delegate.Spares)
    (inside : modes.mode = owner.frame depth) :
    Ending.Spares modes
      (readHoleExpression delegate (modes.push (.expressionHole depth owner)) start ahead) :=
  .andThen_of_liesUnder (ModeStack.liesUnder_push_hole inside)
    (spares _ start ahead (ModeStack.frames_push_ne_nil _ _))
    fun _ _ _ => (spares_leaveHole inside).weaken

theorem spares_readHole
    {ahead : limit < start}
    (spares : delegate.Spares)
    (inside : modes.mode = owner.frame depth) :
    Ending.Spares modes (readHole delegate modes start ahead) := by
  refine .afterStep (ModeStack.openHole_eq_ok.mpr ⟨owner, depth, inside, rfl⟩) ?_
  dsimp only
  split
  · exact (spares_leaveHole inside).weaken
  · exact (spares_readHoleExpression spares inside).map.weaken

theorem spares_readSpread
    {ahead : limit < start}
    (spares : delegate.Spares)
    (inside : modes.mode = owner.frame depth) :
    Ending.Spares modes (readSpread delegate modes start ahead) := by
  refine .afterStep (ModeStack.openHole_eq_ok.mpr ⟨owner, depth, inside, rfl⟩) ?_
  split
  · exact .failure (ModeStack.liesUnder_push_hole inside)
  · exact (spares_readHoleExpression spares inside).weaken

variable [HostConstants ε]

theorem spares_readAttributeValue
    {ahead : limit < start}
    {name : String}
    (spares : delegate.Spares)
    (inside : modes.mode = owner.frame depth) :
    Ending.Spares modes (readAttributeValue delegate modes start ahead name) := by
  unfold readAttributeValue
  split
  · exact .afterRead (.refl modes) fun _ _ _ => .success
  · exact .afterRead (.refl modes) fun _ _ _ => .success
  · exact (spares_readHole spares inside).andThen fun _ _ _ => .success
  · exact .here

theorem spares_readAttribute
    {ahead : limit < start}
    {tag : String}
    (spares : delegate.Spares)
    (inside : modes.mode = owner.frame depth) :
    Ending.Spares modes (readAttribute delegate modes start ahead tag) := by
  unfold readAttribute
  split
  · exact .here
  · dsimp only
    split
    · exact .here
    · split
      · exact .success
      · exact (spares_readAttributeValue spares inside).andThen fun _ _ _ => .success

/-- The entries of a header are read in the mode of the header, one after the other. -/
theorem spares_readHeaderTail
    {ahead : limit < start}
    {tag : String}
    {opened : Position}
    (spares : delegate.Spares)
    (inside : modes.mode = owner.frame depth) :
    Ending.Spares modes (readHeaderTail delegate modes start ahead tag opened) := by
  induction size : start.size using Nat.strongRecOn generalizing start with
  | ind size shorter =>
      subst size
      rw [readHeaderTail]
      dsimp only
      split
      · exact .here
      · exact .success
      · split
        · exact .success
        · exact .here
      · rename_i next
        refine (spares_readSpread spares inside).andThen ?_
        intro expression behind read
        have passed : start < behind :=
          Cursor.lt_of_le_of_lt start.le_skipBlanks (Cursor.lt_trans (Cursor.lt_advance next) read)
        exact (shorter _ (Cursor.size_lt_of_lt passed) rfl).map.weaken
      · refine (spares_readAttribute spares inside).andThen ?_
        intro item behind read
        have passed : start < behind := Cursor.lt_of_le_of_lt start.le_skipBlanks read
        exact (shorter _ (Cursor.size_lt_of_lt passed) rfl).map.weaken

theorem spares_readHeader
    {ahead : limit < start}
    {opened : Position}
    (spares : delegate.Spares)
    (inside : modes.mode = owner.frame depth) :
    Ending.Spares modes (readHeader delegate modes start ahead opened) := by
  unfold readHeader
  dsimp only
  split
  · exact .success
  · exact .afterRead (.refl modes) fun _ _ _ => (spares_readHeaderTail spares inside).map.weaken

theorem spares_readBraces
    {ahead : limit < start}
    (spares : delegate.Spares)
    (inside : modes.mode = owner.frame depth) :
    Ending.Spares modes (readBraces delegate modes start ahead) := by
  unfold readBraces
  split
  · exact .here
  · exact .success
  · dsimp only
    split
    · exact .here
    · exact (spares_readHole spares inside).andThen fun _ _ _ => .success

omit [HostConstants ε] in
/-- A closing tag leads back to where its element was opened. -/
theorem spares_closeElement
    {header : Header ε}
    {content : Content ε}
    {stop : Cursor}
    {passed : start < stop}
    (proper : modes.frames ≠ []) :
    Ending.Spares modes
      (closeElement header content (modes.push (.tagContent depth)) start stop passed) := by
  refine .afterStep (ModeStack.closeTag_push proper) ?_
  split
  · exact .success
  · exact .here

/-- A tag that does not open leaves the modes as they are. -/
theorem spares_openTag
    {position : Position}
    {next : Nat → ModeStack → Outcome P α}
    (second : ∀ depth, modes.LiesUnder (modes.push (.tagHeader depth)) →
      Ending.Spares modes (next depth (modes.push (.tagHeader depth)))) :
    Ending.Spares modes (Outcome.afterStep (ModeStack.openTag position) modes next) := by
  unfold Outcome.afterStep
  cases opened : ModeStack.openTag position modes with
  | ok depth after =>
      have under := ModeStack.liesUnder_openTag opened
      obtain ⟨-, -, rfl, rfl⟩ := ModeStack.openTag_eq_ok.mp opened
      exact second _ under
  | error refusal after =>
      obtain rfl := ModeStack.eq_of_openTag_eq_error opened
      exact .here

end Readers

section Elements

variable [HostConstants ε] {delegate : DelegateBehind ε limit} (spares : delegate.Spares)

include spares

mutual

/-- An element opens a tag and ends it, in its header or behind its content. -/
theorem spares_readElementBehind
    {modes : ModeStack}
    {start : Cursor}
    {ahead : limit ≤ start}
    (proper : modes.frames ≠ []) :
    Ending.Spares modes (readElementBehind delegate modes start ahead) := by
  rw [readElementBehind]
  split
  · exact .here
  · rename_i inside opened
    refine spares_openTag ?_
    intro depth under
    have header : (modes.push (.tagHeader depth)).mode = HoleOwner.tagHeader.frame depth := rfl
    refine .andThen_of_liesUnder under (spares_readHeader spares header) ?_
    intro header behind read
    have passed : start < behind := Cursor.lt_trans (Cursor.lt_of_eat? opened) read
    dsimp only
    split
    · exact .afterStep (ModeStack.selfClose_push proper) .success
    · refine .afterStep ModeStack.enterContent_push ?_
      exact .andThen_of_liesUnder under.enterContent (spares_readContentBehind rfl)
        fun _ _ _ => spares_closeElement proper
termination_by (start.size, 0)
decreasing_by exact Prod.Lex.left _ _ (Cursor.size_lt_of_lt passed)

/-- Content is read in the mode of content, child after child. -/
theorem spares_readContentBehind
    {modes : ModeStack}
    {start : Cursor}
    {ahead : limit < start}
    {name : String}
    {opened : Position}
    {left : Boundary}
    {depth : Nat}
    (inside : modes.mode = HoleOwner.tagContent.frame depth) :
    Ending.Spares modes (readContentBehind delegate modes start ahead name opened left) := by
  rw [readContentBehind]
  have reached := start.le_advanceBy (ContentMark.next start.rest).1
  dsimp only
  split
  · exact .here
  · exact .afterRead (.refl modes) fun _ _ _ => .success
  · refine (spares_readElementBehind (ModeStack.frames_ne_nil_of_mode inside)).andThen ?_
    intro element behind read
    have passed : start < behind := Cursor.lt_of_le_of_lt reached read
    exact (spares_readContentBehind inside).map.weaken
  · refine (spares_readBraces spares inside).andThen ?_
    intro child behind read
    have passed : start < behind := Cursor.lt_of_le_of_lt reached read
    exact (spares_readContentBehind inside).map.weaken
termination_by (start.size, 1)
decreasing_by
  · rcases Nat.lt_or_eq_of_le (Cursor.size_le_of_le reached) with less | same
    · exact Prod.Lex.left _ _ less
    · rw [same]
      exact Prod.Lex.right _ Nat.zero_lt_one
  · exact Prod.Lex.left _ _ (Cursor.size_lt_of_lt passed)
  · exact Prod.Lex.left _ _ (Cursor.size_lt_of_lt passed)

end

end Elements

end EmbeddedMarkup
