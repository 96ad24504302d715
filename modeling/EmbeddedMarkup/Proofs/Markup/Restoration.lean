import EmbeddedMarkup.Proofs.Markup.Writing
import EmbeddedMarkup.Proofs.Reading.ExpressionSoundness

/-!
# Markup leaves the modes as it found them

Markup is read with any delegate that leaves the modes of a hole alone when it succeeds.  Then an
element that is read leaves the modes alone as well, and markup itself never asks for a move that
the innermost mode does not allow: each move is asked for right where the grammar has put the
mode that allows it.

A fault of the delegate is passed on, and the delegate may use moves of its own and report their
refusals.  So that a refused move is not the fault of markup is stated with two runs: let the
delegate word its faults differently, and the refused move is worded differently too.
-/

namespace EmbeddedMarkup

variable {ε α β : Type} {P Q : Cursor → Prop} {limit : Cursor}

/-- The fault is a move that the innermost mode did not allow. -/
def Fault.IsRefusedMove (fault : Fault) : Prop :=
  ∃ change mode, fault.cause = .mode (.notAllowed change mode)

/-- The outcome with its fault, if it is a failure, in other words. -/
def Outcome.rewording (reword : Fault → Fault) : Outcome P α → Outcome P α
  | .success value modes stop reached => .success value modes stop reached
  | .failure fault modes => .failure (reword fault) modes

/-- The delegate with its faults in other words. -/
def Delegate.rewording (delegate : Delegate ε) (reword : Fault → Fault) : Delegate ε :=
  fun modes start => (delegate modes start).rewording reword

/-- When the delegate succeeds in a hole, it leaves the modes as it found them. -/
def Delegate.RestoresHoles (delegate : Delegate ε) : Prop :=
  ∀ modes start depth owner value after stop,
    modes.mode = .expressionHole depth owner →
    (delegate modes start).Yields value after stop →
    after = modes

/--
The outcomes of one reader with a delegate and with the same delegate in other words: both succeed
alike and leave the given modes, both fail alike at a fault of the reader, which is no refused
move, or both fail where the delegate failed.
-/
inductive Settles (reword : Fault → Fault) (restored : ModeStack) :
    Outcome P α → Outcome P α → Prop
  | success {value : α} {stop : Cursor} {reached : P stop} :
      Settles reword restored (.success value restored stop reached)
        (.success value restored stop reached)
  | failure {fault : Fault} {modes : ModeStack} :
      ¬fault.IsRefusedMove →
      Settles reword restored (.failure fault modes) (.failure fault modes)
  | delegated {fault : Fault} {modes : ModeStack} :
      Settles reword restored (.failure fault modes) (.failure (reword fault) modes)

/-- A fault in markup is no refused move. -/
theorem Fault.not_isRefusedMove_markup (cause : MarkupCause) (position : Position) :
    ¬(Fault.markup cause position).IsRefusedMove := by
  rintro ⟨change, mode, same⟩
  cases same

namespace Settles

variable
  {reword : Fault → Fault}
  {modes middle restored : ModeStack}
  {outcome outcome' : Outcome P α}

theorem markup {cause : MarkupCause} {position : Position} :
    Settles reword restored (.failure (.markup cause position) modes : Outcome P α)
      (.failure (.markup cause position) modes) :=
  .failure (Fault.not_isRefusedMove_markup cause position)

theorem andThen
    {next next' : α → ModeStack → (stop : Cursor) → P stop → Outcome Q β}
    (first : Settles reword middle outcome outcome')
    (second : ∀ value stop reached,
      Settles reword restored (next value middle stop reached) (next' value middle stop reached)) :
    Settles reword restored (outcome.andThen next) (outcome'.andThen next') := by
  cases first with
  | success => exact second _ _ _
  | failure own => exact .failure own
  | delegated => exact .delegated

theorem map {f : α → β} (settles : Settles reword restored outcome outcome') :
    Settles reword restored (outcome.map f) (outcome'.map f) :=
  settles.andThen fun _ _ _ => .success

theorem weaken
    {weaker : ∀ stop, P stop → Q stop}
    (settles : Settles reword restored outcome outcome') :
    Settles reword restored (outcome.weaken weaker) (outcome'.weaken weaker) :=
  settles.andThen fun _ _ _ => .success

/-- A move that is allowed leads on. -/
theorem afterStep
    {step : ModeStep α}
    {value : α}
    {next next' : α → ModeStack → Outcome Q β}
    (allowed : step modes = .ok value middle)
    (second : Settles reword restored (next value middle) (next' value middle)) :
    Settles reword restored (.afterStep step modes next) (.afterStep step modes next') := by
  rw [Outcome.afterStep, Outcome.afterStep, allowed]
  exact second

/-- A reading that only finds faults in markup leads on, or both runs fail with its fault. -/
theorem afterRead
    {read : Except Fault (Read P α)}
    {next next' : α → (stop : Cursor) → P stop → Outcome Q β}
    (own : ∀ fault, read = .error fault → ¬fault.IsRefusedMove)
    (second : ∀ value stop reached,
      Settles reword restored (next value stop reached) (next' value stop reached)) :
    Settles reword restored (.afterRead read modes next) (.afterRead read modes next') := by
  unfold Outcome.afterRead
  cases found : read with
  | ok read => exact second _ _ _
  | error fault => exact .failure (own fault found)

end Settles

section OwnFaults

variable {start : Cursor} {fault : Fault}

theorem not_isRefusedMove_of_readHoleEnd (failed : readHoleEnd start = .error fault) :
    ¬fault.IsRefusedMove := by
  unfold readHoleEnd at failed
  split at failed
  · cases failed
  · split at failed <;> cases failed <;> exact Fault.not_isRefusedMove_markup _ _

theorem not_isRefusedMove_of_readQuotedValue
    [HostConstants ε]
    {quote : Char}
    (failed : readQuotedValue (ε := ε) start quote = .error fault) :
    ¬fault.IsRefusedMove := by
  unfold readQuotedValue at failed
  dsimp only at failed
  split at failed <;> cases failed
  exact Fault.not_isRefusedMove_markup _ _

theorem not_isRefusedMove_of_readDottedName (failed : readDottedName start = .error fault) :
    ¬fault.IsRefusedMove := by
  unfold readDottedName at failed
  dsimp only at failed
  split at failed <;> cases failed
  exact Fault.not_isRefusedMove_markup _ _

theorem not_isRefusedMove_of_readTagName (failed : readTagName start = .error fault) :
    ¬fault.IsRefusedMove := by
  unfold readTagName at failed
  split at failed
  · exact not_isRefusedMove_of_readDottedName failed
  · cases failed
    exact Fault.not_isRefusedMove_markup _ _

theorem not_isRefusedMove_of_readClosingTag
    {name : String}
    (failed : readClosingTag start name = .error fault) :
    ¬fault.IsRefusedMove := by
  unfold readClosingTag at failed
  dsimp only at failed
  split at failed
  · rename_i unnamed
    cases failed
    unfold readClosingName at unnamed
    split at unnamed
    · exact not_isRefusedMove_of_readDottedName unnamed
    · cases unnamed
  · split at failed
    · cases failed
      exact Fault.not_isRefusedMove_markup _ _
    · split at failed
      · cases failed
      · split at failed <;> cases failed <;> exact Fault.not_isRefusedMove_markup _ _

theorem not_isRefusedMove_of_readComment? (failed : readComment? start = .error fault) :
    ¬fault.IsRefusedMove := by
  unfold readComment? at failed
  split at failed
  · cases failed
  · dsimp only at failed
    split at failed
    · split at failed
      · cases failed
        exact Fault.not_isRefusedMove_markup _ _
      · split at failed <;> cases failed
    · cases failed

end OwnFaults

/-- Two delegates that differ in their words only, and restore the modes of holes. -/
def DelegateBehind.SettleHoles
    (reword : Fault → Fault)
    (delegate delegate' : DelegateBehind ε limit) : Prop :=
  ∀ modes start ahead depth owner,
    modes.mode = .expressionHole depth owner →
    Settles reword modes (delegate modes start ahead) (delegate' modes start ahead)

section Readers

variable
  {reword : Fault → Fault}
  {delegate delegate' : DelegateBehind ε limit}
  {modes : ModeStack}
  {owner : HoleOwner}
  {depth : Nat}
  {start : Cursor}

/-- The brace behind a hole leads back to the tag that the hole was opened on. -/
theorem settles_leaveHole {value : α} (inside : modes.mode = owner.frame depth) :
    Settles reword modes (leaveHole value (modes.push (.expressionHole depth owner)) start)
      (leaveHole value (modes.push (.expressionHole depth owner)) start) :=
  .afterRead (fun _ => not_isRefusedMove_of_readHoleEnd) fun _ _ _ =>
    .afterStep (ModeStack.closeHole_push inside) .success

theorem settles_readHoleExpression
    {ahead : limit < start}
    (settle : DelegateBehind.SettleHoles reword delegate delegate')
    (inside : modes.mode = owner.frame depth) :
    Settles reword modes
      (readHoleExpression delegate (modes.push (.expressionHole depth owner)) start ahead)
      (readHoleExpression delegate' (modes.push (.expressionHole depth owner)) start ahead) :=
  (settle _ start ahead depth owner rfl).andThen fun _ _ _ => (settles_leaveHole inside).weaken

/-- A hole is opened on a tag. -/
theorem openHole_eq_push (inside : modes.mode = owner.frame depth) (position : Position) :
    ModeStack.openHole position modes = .ok () (modes.push (.expressionHole depth owner)) :=
  ModeStack.openHole_eq_ok.mpr ⟨owner, depth, inside, rfl⟩

theorem settles_readHole
    {ahead : limit < start}
    (settle : DelegateBehind.SettleHoles reword delegate delegate')
    (inside : modes.mode = owner.frame depth) :
    Settles reword modes (readHole delegate modes start ahead)
      (readHole delegate' modes start ahead) := by
  refine .afterStep (openHole_eq_push inside _) ?_
  dsimp only
  split
  · exact (settles_leaveHole inside).weaken
  · exact (settles_readHoleExpression settle inside).map.weaken

theorem settles_readSpread
    {ahead : limit < start}
    (settle : DelegateBehind.SettleHoles reword delegate delegate')
    (inside : modes.mode = owner.frame depth) :
    Settles reword modes (readSpread delegate modes start ahead)
      (readSpread delegate' modes start ahead) := by
  refine .afterStep (openHole_eq_push inside _) ?_
  split
  · exact .markup
  · exact (settles_readHoleExpression settle inside).weaken

/-- A tag opens where tags are allowed, or the budget is used up. -/
theorem settles_openTag
    {position : Position}
    {next next' : Nat → ModeStack → Outcome P α}
    (allowed : modes.AllowsTags)
    (second : ∀ depth, Settles reword modes (next depth (modes.push (.tagHeader depth)))
      (next' depth (modes.push (.tagHeader depth)))) :
    Settles reword modes (.afterStep (ModeStack.openTag position) modes next)
      (.afterStep (ModeStack.openTag position) modes next') := by
  by_cases enough : 0 < modes.levels
  · exact .afterStep (ModeStack.openTag_eq_ok.mpr ⟨allowed, enough, rfl, rfl⟩) (second _)
  · have refused :=
      @ModeStack.openTag_eq_error modes position allowed (Nat.eq_zero_of_not_pos enough)
    unfold Outcome.afterStep
    rw [refused]
    refine .failure ?_
    rintro ⟨change, mode, same⟩
    cases same

/-- A closing tag leads back to where its element was opened. -/
theorem settles_closeElement
    {header : Header ε}
    {content : Content ε}
    {stop : Cursor}
    {passed : start < stop}
    (proper : modes.frames ≠ []) :
    Settles reword modes
      (closeElement header content (modes.push (.tagContent depth)) start stop passed)
      (closeElement header content (modes.push (.tagContent depth)) start stop passed) := by
  refine .afterStep (ModeStack.closeTag_push proper) ?_
  split
  · exact .success
  · exact .markup

variable [HostConstants ε]

theorem settles_readAttributeValue
    {ahead : limit < start}
    {name : String}
    (settle : DelegateBehind.SettleHoles reword delegate delegate')
    (inside : modes.mode = owner.frame depth) :
    Settles reword modes (readAttributeValue delegate modes start ahead name)
      (readAttributeValue delegate' modes start ahead name) := by
  unfold readAttributeValue
  split
  · exact .afterRead (fun _ => not_isRefusedMove_of_readQuotedValue) fun _ _ _ => .success
  · exact .afterRead (fun _ => not_isRefusedMove_of_readQuotedValue) fun _ _ _ => .success
  · exact (settles_readHole settle inside).andThen fun _ _ _ => .success
  · exact .markup

theorem settles_readAttribute
    {ahead : limit < start}
    {tag : String}
    (settle : DelegateBehind.SettleHoles reword delegate delegate')
    (inside : modes.mode = owner.frame depth) :
    Settles reword modes (readAttribute delegate modes start ahead tag)
      (readAttribute delegate' modes start ahead tag) := by
  unfold readAttribute
  split
  · exact .markup
  · dsimp only
    split
    · exact .markup
    · split
      · exact .success
      · exact (settles_readAttributeValue settle inside).andThen fun _ _ _ => .success

/-- The entries of a header are read in the mode of the header, one after the other. -/
theorem settles_readHeaderTail
    {ahead : limit < start}
    {tag : String}
    {opened : Position}
    (settle : DelegateBehind.SettleHoles reword delegate delegate')
    (inside : modes.mode = owner.frame depth) :
    Settles reword modes (readHeaderTail delegate modes start ahead tag opened)
      (readHeaderTail delegate' modes start ahead tag opened) := by
  induction size : start.size using Nat.strongRecOn generalizing start with
  | ind size shorter =>
      subst size
      rw [readHeaderTail, readHeaderTail]
      dsimp only
      split
      · exact .markup
      · exact .success
      · split
        · exact .success
        · exact .markup
      · rename_i next
        refine (settles_readSpread settle inside).andThen ?_
        intro expression behind read
        have passed : start < behind :=
          Cursor.lt_of_le_of_lt start.le_skipBlanks (Cursor.lt_trans (Cursor.lt_advance next) read)
        exact (shorter _ (Cursor.size_lt_of_lt passed) rfl).map.weaken
      · refine (settles_readAttribute settle inside).andThen ?_
        intro item behind read
        have passed : start < behind := Cursor.lt_of_le_of_lt start.le_skipBlanks read
        exact (shorter _ (Cursor.size_lt_of_lt passed) rfl).map.weaken

theorem settles_readHeader
    {ahead : limit < start}
    {opened : Position}
    (settle : DelegateBehind.SettleHoles reword delegate delegate')
    (inside : modes.mode = owner.frame depth) :
    Settles reword modes (readHeader delegate modes start ahead opened)
      (readHeader delegate' modes start ahead opened) := by
  unfold readHeader
  dsimp only
  split
  · exact .success
  · exact .afterRead (fun _ => not_isRefusedMove_of_readTagName) fun _ _ _ =>
      (settles_readHeaderTail settle inside).map.weaken

theorem settles_readBraces
    {ahead : limit < start}
    (settle : DelegateBehind.SettleHoles reword delegate delegate')
    (inside : modes.mode = owner.frame depth) :
    Settles reword modes (readBraces delegate modes start ahead)
      (readBraces delegate' modes start ahead) := by
  unfold readBraces
  split
  · rename_i failed
    exact .failure (not_isRefusedMove_of_readComment? failed)
  · exact .success
  · dsimp only
    split
    · exact .markup
    · exact (settles_readHole settle inside).andThen fun _ _ _ => .success

end Readers

section Elements

variable
  [HostConstants ε]
  {reword : Fault → Fault}
  {delegate delegate' : DelegateBehind ε limit}
  (settle : DelegateBehind.SettleHoles reword delegate delegate')

include settle

mutual

/-- An element opens a tag and ends it, in its header or behind its content. -/
theorem settles_readElementBehind
    {modes : ModeStack}
    {start : Cursor}
    {ahead : limit ≤ start}
    (proper : modes.frames ≠ [])
    (allowed : modes.AllowsTags) :
    Settles reword modes (readElementBehind delegate modes start ahead)
      (readElementBehind delegate' modes start ahead) := by
  rw [readElementBehind, readElementBehind]
  split
  · exact .markup
  · rename_i inside opened
    refine settles_openTag allowed ?_
    intro depth
    refine (settles_readHeader settle (show _ = HoleOwner.tagHeader.frame _ from rfl)).andThen ?_
    intro header behind read
    have passed : start < behind := Cursor.lt_trans (Cursor.lt_of_eat? opened) read
    dsimp only
    split
    · exact .afterStep (ModeStack.selfClose_push proper) .success
    · refine .afterStep ModeStack.enterContent_push ?_
      exact (settles_readContentBehind rfl).andThen fun _ _ _ => settles_closeElement proper
termination_by (start.size, 0)
decreasing_by exact Prod.Lex.left _ _ (Cursor.size_lt_of_lt passed)

/-- Content is read in the mode of content, child after child. -/
theorem settles_readContentBehind
    {modes : ModeStack}
    {start : Cursor}
    {ahead : limit < start}
    {name : String}
    {opened : Position}
    {left : Boundary}
    {depth : Nat}
    (inside : modes.mode = .tagContent depth) :
    Settles reword modes (readContentBehind delegate modes start ahead name opened left)
      (readContentBehind delegate' modes start ahead name opened left) := by
  rw [readContentBehind, readContentBehind]
  have reached := start.le_advanceBy (ContentMark.next start.rest).1
  dsimp only
  split
  · exact .markup
  · exact .afterRead (fun _ => not_isRefusedMove_of_readClosingTag) fun _ _ _ => .success
  · have owned : modes.mode = HoleOwner.tagContent.frame depth := inside
    have proper := ModeStack.frames_ne_nil_of_mode owned
    have allowed : modes.AllowsTags := by
      intro depth header
      rw [inside] at header
      cases header
    refine (settles_readElementBehind proper allowed).andThen ?_
    intro element behind read
    have passed : start < behind := Cursor.lt_of_le_of_lt reached read
    exact (settles_readContentBehind inside).map.weaken
  · have owned : modes.mode = HoleOwner.tagContent.frame depth := inside
    refine (settles_readBraces settle owned).andThen ?_
    intro child behind read
    have passed : start < behind := Cursor.lt_of_le_of_lt reached read
    exact (settles_readContentBehind inside).map.weaken
termination_by (start.size, 1)
decreasing_by
  · rcases Nat.lt_or_eq_of_le (Cursor.size_le_of_le reached) with less | same
    · exact Prod.Lex.left _ _ less
    · rw [same]
      exact Prod.Lex.right _ Nat.zero_lt_one
  · exact Prod.Lex.left _ _ (Cursor.size_lt_of_lt passed)
  · exact Prod.Lex.left _ _ (Cursor.size_lt_of_lt passed)

end

end Elements

/-- Two runs of the reader of elements with one delegate settle, whatever its faults are called. -/
theorem Delegate.RestoresHoles.settles_readElement
    [HostConstants ε]
    {delegate : Delegate ε}
    {modes : ModeStack}
    (restores : delegate.RestoresHoles)
    (proper : modes.frames ≠ [])
    (allowed : modes.AllowsTags)
    (reword : Fault → Fault)
    (start : Cursor) :
    Settles reword modes (readElement delegate modes start)
      (readElement (delegate.rewording reword) modes start) := by
  refine settles_readElementBehind ?_ proper allowed
  intro modes inside _ depth owner hole
  unfold Delegate.behind Delegate.rewording
  cases delegated : delegate modes inside with
  | success value after stop reached =>
      obtain rfl := restores modes inside depth owner value after stop hole ⟨reached, delegated⟩
      exact .success
  | failure fault after => exact .delegated

/-- The reader of host expressions leaves the modes of a hole as it found them. -/
theorem restoresHoles_hostDelegate : hostDelegate.RestoresHoles := by
  intro modes start depth owner value after stop hole yields
  obtain ⟨outer, frames⟩ := ModeStack.frames_of_mode hole (by simp)
  have proper : modes.frames ≠ [] := by simp [frames]
  have reaches :=
    StreamOutcome.yields_toOutcome_iff_reaches.mp (Outcome.yields_weaken.mp yields)
  exact (reads_of_readExpression proper reaches).1

/--
With any delegate that leaves the modes of holes as it found them, and on any modes in which a tag
may open, an element that is read leaves the modes as they were.  A refused move is never the
fault of markup: where one is reported, it is the delegate's fault, and is reported in the words
that the delegate chooses.  The reader of host expressions is such a delegate.
-/
theorem readElement_restores_modes :
    (∀ {ε : Type} [HostConstants ε] (delegate : Delegate ε) (modes : ModeStack) (start : Cursor),
      delegate.RestoresHoles →
      modes.frames ≠ [] →
      modes.AllowsTags →
      (∀ element after stop,
        (readElement delegate modes start).Yields element after stop → after = modes) ∧
      (∀ fault after,
        readElement delegate modes start = .failure fault after →
        fault.IsRefusedMove →
        ∀ reword : Fault → Fault,
          readElement (delegate.rewording reword) modes start = .failure (reword fault) after)) ∧
    hostDelegate.RestoresHoles := by
  refine ⟨?_, restoresHoles_hostDelegate⟩
  intro ε _ delegate modes start restores proper allowed
  constructor
  · intro element after stop yields
    obtain ⟨reached, read⟩ := yields
    have settles := restores.settles_readElement proper allowed id start
    rw [read] at settles
    generalize readElement (delegate.rewording id) modes start = reworded at settles
    cases settles
    rfl
  · intro fault after failed refused reword
    have settles := restores.settles_readElement proper allowed reword start
    rw [failed] at settles
    generalize readElement (delegate.rewording reword) modes start = reworded at settles ⊢
    cases settles with
    | failure own => exact absurd refused own
    | delegated => rfl

/-- In a hole, an element that holds a hole itself is read, and the modes are left alone. -/
theorem readElement_restores_modes_greeting :
    ∃ modes element stop,
      modes.mode = .expressionHole 1 .tagContent ∧
        (readElement hostDelegate modes (.ofText "<a x = '1'> hi {$y}<b /></a >")).Yields
          element modes stop ∧
        ∀ other after stop,
          (readElement hostDelegate modes (.ofText "<a x = '1'> hi {$y}<b /></a >")).Yields
            other after stop → after = modes := by
  have written : IsElement "<a x = '1'> hi {$y}<b /></a >".toList greeting :=
    writes_greeting.isReadAs
  obtain ⟨element, -, level, reads⟩ := written
    (@Cursor.passes_advanceBy (.ofText "<a x = '1'> hi {$y}<b /></a >") _ []
      (List.append_nil _).symm)
  let modes : ModeStack :=
    ⟨[.expressionHole 1 .tagContent, .tagContent 1, .hostCode], 0, level + 1⟩
  have admits : modes.Admits level := {
    proper := by simp [modes]
    allowsTags := by
      intro depth header
      cases header
    enough := by
      have levels_eq : modes.levels = level := rfl
      omega }
  exact ⟨modes, element, _, rfl, reads.yields_readElement admits,
    (readElement_restores_modes.1 hostDelegate modes _ readElement_restores_modes.2
      admits.proper admits.allowsTags).1⟩

end EmbeddedMarkup
