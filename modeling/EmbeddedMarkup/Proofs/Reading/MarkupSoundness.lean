import EmbeddedMarkup.Proofs.Markup.TagNames
import EmbeddedMarkup.Proofs.Reading.Levels
import EmbeddedMarkup.Proofs.Reading.Rules
import EmbeddedMarkup.Proofs.Text.Cursor

/-!
# Markup is read by the rules

What the readers of markup yield has a derivation by the rules of reading, and the modes are
left as they were found.  The delegate is assumed to have both properties; that the reader of
host expressions has them is shown together with the rules of expressions.
-/

namespace EmbeddedMarkup

open Outcome

variable {limit : Cursor}

/-- The reader of host expressions as the delegate of markup inside an expression. -/
def hostBehind (remembers : Bool) (limit : Cursor) : DelegateBehind Expression limit :=
  fun modes start _ =>
    (readExpression 0 modes (.fresh remembers start)).toOutcome.weaken fun _ => Cursor.le_of_lt

/-- What a delegate yields is read by the rules and leaves the modes as they were. -/
def DelegateBehind.FollowsRules (delegate : DelegateBehind Expression limit) : Prop :=
  ∀ modes start ahead value after stop,
    modes.frames ≠ [] →
    (delegate modes start ahead).Yields value after stop →
    after = modes ∧ Reads modes.levels (.expression 0 value) start stop

/-- A hole ends with its closing brace, behind blank space. -/
theorem yields_leaveHole
    {α : Type}
    {value given : α}
    {modes after : ModeStack}
    {start stop : Cursor} :
    (leaveHole given modes start).Yields value after stop ↔
      start.skipBlanks.eat? '\x7d' = some stop ∧ given = value ∧
        ∃ mode, ModeStack.closeHole stop.position modes = .ok mode after := by
  rw [leaveHole, yields_afterRead]
  simp only [yields_afterStep, yields_success]
  constructor
  · rintro ⟨⟨_, stop', _⟩, closed, mode, modes', left, rfl, rfl, rfl⟩
    unfold readHoleEnd at closed
    split at closed
    · rename_i stop'' eaten
      cases closed
      exact ⟨eaten, rfl, mode, left⟩
    · split at closed <;> cases closed
  · rintro ⟨eaten, rfl, mode, left⟩
    refine ⟨⟨(), stop, Cursor.lt_of_eat? eaten⟩, ?_, mode, after, left, rfl, rfl, rfl⟩
    unfold readHoleEnd
    split
    · rename_i stop' eaten'
      rw [eaten] at eaten'
      cases eaten'
      rfl
    · rename_i none_eaten
      rw [eaten] at none_eaten
      cases none_eaten

section Soundness

variable
  {delegate : DelegateBehind Expression limit}
  {modes after : ModeStack}
  {start stop : Cursor}
  {ahead : limit < start}

theorem reads_of_readHoleExpression
    {value : Expression}
    {owner : HoleOwner}
    {depth : Nat}
    (follows : delegate.FollowsRules)
    (inside : modes.mode = owner.frame depth)
    (yields : (readHoleExpression delegate (modes.push (.expressionHole depth owner)) start
      ahead).Yields value after stop) :
    after = modes ∧ ∃ middle,
      Reads modes.levels (.expression 0 value) start middle ∧
      middle.skipBlanks.eat? '\x7d' = some stop := by
  rw [readHoleExpression, yields_andThen] at yields
  obtain ⟨value', modes', middle, delegated, _, left⟩ := yields
  obtain ⟨rfl, reads⟩ := follows _ _ _ _ _ _ (ModeStack.frames_push_ne_nil _ _) delegated
  rw [yields_weaken, yields_leaveHole, ModeStack.closeHole_push inside] at left
  obtain ⟨closed, rfl, mode, restored⟩ := left
  rw [ModeStack.levels_push_hole inside] at reads
  cases restored
  exact ⟨rfl, middle, reads, closed⟩

theorem reads_of_readHole
    {part : Option Expression}
    (follows : delegate.FollowsRules)
    (yields : (readHole delegate modes start ahead).Yields part after stop) :
    after = modes ∧ Reads modes.levels (.hole part) start stop := by
  rw [readHole, yields_afterStep] at yields
  obtain ⟨_, moved, opened, yields⟩ := yields
  obtain ⟨owner, depth, inside, rfl⟩ := ModeStack.openHole_eq_ok.mp opened
  dsimp only at yields
  split at yields
  · rw [yields_weaken, yields_leaveHole, ModeStack.closeHole_push inside,
      Cursor.skipBlanks_skipBlanks] at yields
    obtain ⟨closed, rfl, mode, restored⟩ := yields
    cases restored
    exact ⟨rfl, .emptyHole closed⟩
  · rename_i filled
    rw [yields_weaken, yields_map] at yields
    obtain ⟨value, read, rfl⟩ := yields
    obtain ⟨restored, middle, reads, closed⟩ := reads_of_readHoleExpression follows inside read
    exact ⟨restored, .filledHole filled reads closed⟩

theorem reads_of_readSpread
    {value : Expression}
    (follows : delegate.FollowsRules)
    (yields : (readSpread delegate modes start ahead).Yields value after stop) :
    after = modes ∧ Reads modes.levels (.spread value) start stop := by
  rw [readSpread, yields_afterStep] at yields
  obtain ⟨_, moved, opened, yields⟩ := yields
  obtain ⟨owner, depth, inside, rfl⟩ := ModeStack.openHole_eq_ok.mp opened
  split at yields
  · exact absurd yields not_yields_failure
  · rename_i behind dots
    rw [yields_weaken] at yields
    obtain ⟨restored, middle, reads, closed⟩ := reads_of_readHoleExpression follows inside yields
    exact ⟨restored, .spread dots reads closed⟩

theorem reads_of_readQuotedValue
    {level : Nat}
    {quote : Char}
    {read : Read (start ≤ ·) Expression}
    (quotes : quote = '"' ∨ quote = '\'')
    (opened : start.peek? = some quote)
    (found : readQuotedValue start quote = .ok read) :
    Reads level (.attributeValue read.value) start read.stop := by
  unfold readQuotedValue at found
  dsimp only at found
  split at found
  · cases found
  · rename_i stop closed
    cases found
    exact .quotedValue quotes opened closed

theorem reads_of_readAttributeValue
    {value : Expression}
    {name : String}
    (follows : delegate.FollowsRules)
    (yields : (readAttributeValue delegate modes start ahead name).Yields value after stop) :
    after = modes ∧ Reads modes.levels (.attributeValue value) start stop := by
  unfold readAttributeValue at yields
  split at yields
  · rename_i opened
    rw [yields_afterRead] at yields
    obtain ⟨read, found, done⟩ := yields
    obtain ⟨rfl, rfl, rfl⟩ := yields_success.mp done
    exact ⟨rfl, reads_of_readQuotedValue (.inl rfl) opened found⟩
  · rename_i opened
    rw [yields_afterRead] at yields
    obtain ⟨read, found, done⟩ := yields
    obtain ⟨rfl, rfl, rfl⟩ := yields_success.mp done
    exact ⟨rfl, reads_of_readQuotedValue (.inr rfl) opened found⟩
  · rename_i opened
    rw [yields_andThen] at yields
    obtain ⟨part, modes', middle, holeYields, _, done⟩ := yields
    obtain ⟨rfl, rfl, rfl⟩ := yields_success.mp done
    obtain ⟨restored, reads⟩ := reads_of_readHole follows holeYields
    exact ⟨restored, .holeValue opened reads⟩
  · exact absurd yields not_yields_failure

theorem reads_of_readAttribute
    {item : Attribute Expression}
    {tag : String}
    (follows : delegate.FollowsRules)
    (yields : (readAttribute delegate modes start ahead tag).Yields item after stop) :
    after = modes ∧ Reads modes.levels (.attribute item) start stop := by
  unfold readAttribute at yields
  split at yields
  · exact absurd yields not_yields_failure
  · rename_i first more spelled
    split at yields
    · exact absurd yields not_yields_failure
    · rename_i valid
      dsimp only at yields
      split at yields
      · rename_i bare
        obtain ⟨rfl, rfl, rfl⟩ := yields_success.mp yields
        exact ⟨rfl, .bareAttribute spelled (List.cons_ne_nil _ _) valid rfl bare⟩
      · rename_i behind equals
        rw [yields_andThen] at yields
        obtain ⟨value, modes', middle, valued, _, done⟩ := yields
        obtain ⟨rfl, rfl, rfl⟩ := yields_success.mp done
        obtain ⟨restored, reads⟩ := reads_of_readAttributeValue follows valued
        exact ⟨restored, .valuedAttribute spelled (List.cons_ne_nil _ _) valid equals reads⟩

theorem reads_of_readHeaderTail
    {tail : HeaderTail Expression}
    {tag : String}
    {opened : Position}
    (follows : delegate.FollowsRules)
    (yields : (readHeaderTail delegate modes start ahead tag opened).Yields tail after stop) :
    after = modes ∧ Reads modes.levels (.headerTail tail) start stop := by
  induction size : start.size using Nat.strongRecOn generalizing modes start tail with
  | ind size shorter =>
      subst size
      rw [readHeaderTail] at yields
      split at yields
      · exact absurd yields not_yields_failure
      · rename_i next
        obtain ⟨rfl, rfl, rfl⟩ := yields_success.mp yields
        exact ⟨rfl, .headerEnd (Cursor.eat?_eq_some_iff.mpr ⟨next, rfl⟩)⟩
      · split at yields
        · rename_i closed
          obtain ⟨rfl, rfl, rfl⟩ := yields_success.mp yields
          exact ⟨rfl, .selfClosingEnd closed⟩
        · exact absurd yields not_yields_failure
      · rename_i next
        rw [yields_andThen] at yields
        obtain ⟨operand, modes', middle, spread, passed, yields⟩ := yields
        rw [yields_weaken, yields_map] at yields
        obtain ⟨rest, yields, rfl⟩ := yields
        obtain ⟨rfl, reads⟩ := reads_of_readSpread follows spread
        have fewer : middle.size < start.size :=
          Cursor.size_lt_of_lt (Cursor.lt_of_le_of_lt start.le_skipBlanks
            (Cursor.lt_trans (Cursor.lt_advance next) passed))
        obtain ⟨restored, readsRest⟩ := shorter _ fewer yields rfl
        exact ⟨restored,
          .spreadItem (Cursor.eat?_eq_some_iff.mpr ⟨next, rfl⟩) reads readsRest⟩
      · rw [yields_andThen] at yields
        obtain ⟨item, modes', middle, named, passed, yields⟩ := yields
        rw [yields_weaken, yields_map] at yields
        obtain ⟨rest, yields, rfl⟩ := yields
        obtain ⟨rfl, reads⟩ := reads_of_readAttribute follows named
        have fewer : middle.size < start.size :=
          Cursor.size_lt_of_lt (Cursor.lt_of_le_of_lt start.le_skipBlanks passed)
        obtain ⟨restored, readsRest⟩ := shorter _ fewer yields rfl
        exact ⟨restored, .attributeItem reads readsRest⟩

theorem reads_of_readHeader
    {header : Header Expression}
    {opened : Position}
    (follows : delegate.FollowsRules)
    (yields : (readHeader delegate modes start ahead opened).Yields header after stop) :
    after = modes ∧ Reads modes.levels (.header header) start stop := by
  unfold readHeader at yields
  dsimp only at yields
  split at yields
  · rename_i fragment
    obtain ⟨rfl, rfl, rfl⟩ := yields_success.mp yields
    exact ⟨rfl, .fragmentHeader fragment⟩
  · rw [yields_afterRead] at yields
    obtain ⟨⟨name, named, reached⟩, found, yields⟩ := yields
    rw [yields_weaken, yields_map] at yields
    obtain ⟨tail, yields, rfl⟩ := yields
    obtain ⟨restored, reads⟩ := reads_of_readHeaderTail follows yields
    exact ⟨restored, .namedHeader found reads⟩

theorem reads_of_readBraces
    {child : Child Expression}
    (follows : delegate.FollowsRules)
    (yields : (readBraces delegate modes start ahead).Yields child after stop) :
    after = modes ∧ Reads modes.levels (.braces child) start stop := by
  unfold readBraces at yields
  split at yields
  · exact absurd yields not_yields_failure
  · rename_i comment found
    obtain ⟨rfl, rfl, rfl⟩ := yields_success.mp yields
    exact ⟨rfl, .comment found⟩
  · rename_i found
    dsimp only at yields
    split at yields
    · exact absurd yields not_yields_failure
    · rename_i unspread
      rw [yields_andThen] at yields
      obtain ⟨part, modes', middle, hole, _, done⟩ := yields
      obtain ⟨rfl, rfl, rfl⟩ := yields_success.mp done
      obtain ⟨restored, reads⟩ := reads_of_readHole follows hole
      exact ⟨restored, .hole found (Bool.eq_false_iff.mpr unspread) reads⟩

end Soundness

mutual

/-- What the reader of elements yields is an element by the rules. -/
theorem reads_of_readElementBehind
    {delegate : DelegateBehind Expression limit}
    {modes after : ModeStack}
    {start stop : Cursor}
    {ahead : limit ≤ start}
    {element : Element Expression}
    (follows : delegate.FollowsRules)
    (proper : modes.frames ≠ [])
    (yields : (readElementBehind delegate modes start ahead).Yields element after stop) :
    after = modes ∧ Reads modes.levels (.element element) start stop := by
  rw [readElementBehind] at yields
  split at yields
  · exact absurd yields not_yields_failure
  · rename_i inside opened
    rw [yields_afterStep] at yields
    obtain ⟨_, moved, allowed, yields⟩ := yields
    obtain ⟨_, enough, rfl, rfl⟩ := ModeStack.openTag_eq_ok.mp allowed
    rw [yields_andThen] at yields
    obtain ⟨header, modes', behind, headed, passed, yields⟩ := yields
    obtain ⟨rfl, readsHeader⟩ := reads_of_readHeader follows headed
    have level : modes.levels = modes.levels - 1 + 1 := by omega
    have headerLevels := ModeStack.levels_push_frame modes .tagHeader
    have contentLevels := ModeStack.levels_push_frame modes .tagContent
    simp only [HoleOwner.frame] at headerLevels contentLevels
    rw [headerLevels] at readsHeader
    split at yields
    · rename_i ending
      rw [yields_afterStep] at yields
      obtain ⟨_, moved, left, done⟩ := yields
      rw [ModeStack.selfClose_push proper] at left
      cases left
      obtain ⟨rfl, rfl, rfl⟩ := yields_success.mp done
      rw [level]
      exact ⟨rfl, .selfClosingElement opened readsHeader ending⟩
    · rename_i ending
      rw [yields_afterStep] at yields
      obtain ⟨_, moved, entered, yields⟩ := yields
      rw [ModeStack.enterContent_push] at entered
      cases entered
      rw [yields_andThen] at yields
      obtain ⟨content, modes', stop', contentYields, passed', yields⟩ := yields
      have fewer := Cursor.size_lt_of_lt (Cursor.lt_trans (Cursor.lt_of_eat? opened) passed)
      obtain ⟨rfl, closing, readsContent⟩ :=
        reads_of_readContentBehind follows (ModeStack.frames_push_ne_nil _ _) contentYields
      rw [closeElement] at yields
      rw [yields_afterStep] at yields
      obtain ⟨_, moved, left, done⟩ := yields
      rw [ModeStack.closeTag_push proper] at left
      cases left
      simp only [Element.closed, closing, if_true] at done
      obtain ⟨rfl, rfl, rfl⟩ := yields_success.mp done
      rw [contentLevels] at readsContent
      rw [level]
      exact ⟨rfl, .closedElement opened readsHeader ending readsContent⟩
termination_by (start.size, 0)
decreasing_by exact Prod.Lex.left _ _ fewer

/-- What the reader of content yields is content by the rules, closed by the right name. -/
theorem reads_of_readContentBehind
    {delegate : DelegateBehind Expression limit}
    {modes after : ModeStack}
    {start stop : Cursor}
    {ahead : limit < start}
    {name : String}
    {opened : Position}
    {left : Boundary}
    {content : Content Expression}
    (follows : delegate.FollowsRules)
    (proper : modes.frames ≠ [])
    (yields : (readContentBehind delegate modes start ahead name opened left).Yields
      content after stop) :
    after = modes ∧ content.2 = name ∧
      Reads modes.levels (.content name left content.1) start stop := by
  rw [readContentBehind] at yields
  dsimp only at yields
  split at yields
  · exact absurd yields not_yields_failure
  · rename_i marked
    rw [yields_afterRead] at yields
    obtain ⟨⟨closing, stop', reached⟩, found, done⟩ := yields
    obtain ⟨rfl, rfl, rfl⟩ := yields_success.mp done
    obtain rfl : closing = name := (of_readClosingTag found).1
    exact ⟨rfl, rfl, .closeContent (Prod.ext rfl marked) found⟩
  · rename_i marked
    rw [yields_andThen] at yields
    obtain ⟨element, modes', middle, elementYields, passed, yields⟩ := yields
    rw [yields_weaken, yields_map] at yields
    obtain ⟨rest, yields, rfl⟩ := yields
    obtain ⟨rfl, reads⟩ := reads_of_readElementBehind follows proper elementYields
    have fewer := Cursor.size_lt_of_lt (Cursor.lt_of_le_of_lt (start.le_advanceBy _) passed)
    obtain ⟨restored, closing, readsRest⟩ := reads_of_readContentBehind follows proper yields
    refine ⟨restored, closing, ?_⟩
    simp only [Content.prepend, List.append_assoc, List.singleton_append]
    exact .elementChild (Prod.ext rfl marked) reads readsRest
  · rename_i marked
    rw [yields_andThen] at yields
    obtain ⟨child, modes', middle, braces, passed, yields⟩ := yields
    rw [yields_weaken, yields_map] at yields
    obtain ⟨rest, yields, rfl⟩ := yields
    obtain ⟨rfl, reads⟩ := reads_of_readBraces follows braces
    have fewer := Cursor.size_lt_of_lt (Cursor.lt_of_le_of_lt (start.le_advanceBy _) passed)
    obtain ⟨restored, closing, readsRest⟩ := reads_of_readContentBehind follows proper yields
    refine ⟨restored, closing, ?_⟩
    simp only [Content.prepend, List.append_assoc, List.singleton_append]
    exact .bracesChild (Prod.ext rfl marked) reads readsRest
termination_by (start.size, 1)
decreasing_by
  · rcases Nat.lt_or_eq_of_le (Cursor.size_le_of_le (start.le_advanceBy _)) with less | same
    · exact Prod.Lex.left _ _ less
    · rw [same]
      exact Prod.Lex.right _ Nat.zero_lt_one
  · exact Prod.Lex.left _ _ fewer
  · exact Prod.Lex.left _ _ fewer

end

end EmbeddedMarkup
