import EmbeddedMarkup.Proofs.HostText.Scanning
import EmbeddedMarkup.Proofs.Markup.Calls
import EmbeddedMarkup.Proofs.Markup.Copy
import EmbeddedMarkup.Proofs.Reading.Endings

/-!
# Faults surface

A fault that a reader meets in a part is the fault that the whole fails with: nothing that is read
before the part stands in its way, and no reader around the part puts a fault of its own in its
place.  As with the phrases that are read, failing is a promise in every stack of modes that leaves
enough levels, and there is one lemma for every way in which a reader can come to a part.
-/

namespace EmbeddedMarkup

open Cursor

variable {fault : Fault}

/-! ## Outcomes -/

/-- A reader that ended so failed with this fault. -/
def Ending.Fails
    {O : (Cursor → Prop) → Type → Type}
    {σ : Type}
    {cursor : σ → Cursor}
    {P : Cursor → Prop}
    {α : Type}
    [Ending O σ cursor]
    (outcome : O P α)
    (fault : Fault) : Prop :=
  ∃ modes, Ending.toOutcome outcome = .failure fault modes

namespace Ending.Fails

variable {α β : Type} {P Q : Cursor → Prop}

section Kinds

variable
  {O : (Cursor → Prop) → Type → Type}
  {σ : Type}
  {cursor : σ → Cursor}
  [Ending O σ cursor]
  {outcome : O P α}

theorem andThen
    {next : α → ModeStack → (place : σ) → P (cursor place) → O Q β}
    (fails : Fails outcome fault) :
    Fails (Ending.andThen outcome next) fault := by
  obtain ⟨modes, failed⟩ := fails
  exact ⟨modes, toOutcome_andThen failed⟩

theorem map {f : α → β} (fails : Fails outcome fault) : Fails (Ending.map f outcome) fault := by
  rw [map_eq_andThen]
  exact fails.andThen

theorem weaken {weaker : ∀ stop, P stop → Q stop} (fails : Fails outcome fault) :
    Fails (Ending.weaken outcome weaker) fault := by
  rw [weaken_eq_andThen]
  exact fails.andThen

theorem toOutcome (fails : Fails outcome fault) : Fails (Ending.toOutcome outcome) fault :=
  fails

end Kinds

theorem mapModes
    {outcome : StreamOutcome P α}
    {f : ModeStack → ModeStack}
    (fails : Fails outcome fault) :
    Fails (outcome.mapModes f) fault := by
  obtain ⟨modes, failed⟩ := fails
  cases outcome <;> cases failed
  exact ⟨f modes, rfl⟩

end Ending.Fails

namespace Outcome

variable
  {α β : Type}
  {P Q : Cursor → Prop}
  {value : α}
  {modes after : ModeStack}
  {stop : Cursor}

theorem fails_failure : Ending.Fails (failure fault modes : Outcome P α) fault :=
  ⟨modes, rfl⟩

/-- A reader fails where it goes on to something that fails. -/
theorem Yields.fails_andThen
    {outcome : Outcome P α}
    {next : α → ModeStack → (stop : Cursor) → P stop → Outcome Q β}
    (yields : outcome.Yields value modes stop)
    (fails : ∀ reached, Ending.Fails (next value modes stop reached) fault) :
    Ending.Fails (outcome.andThen next) fault := by
  obtain ⟨reached, rfl⟩ := yields
  exact fails reached

theorem fails_afterStep
    {step : ModeStep α}
    {next : α → ModeStack → Outcome Q β}
    (moved : step modes = .ok value after)
    (fails : Ending.Fails (next value after) fault) :
    Ending.Fails (Outcome.afterStep step modes next) fault := by
  rw [Outcome.afterStep, moved]
  exact fails

theorem fails_afterRead
    {read : Except Fault (Read P α)}
    {part : Read P α}
    {next : α → (stop : Cursor) → P stop → Outcome Q β}
    (found : read = .ok part)
    (fails : Ending.Fails (next part.value part.stop part.reached) fault) :
    Ending.Fails (afterRead read modes next) fault := by
  rw [found]
  exact fails

theorem fails_afterRead_error
    {read : Except Fault (Read P α)}
    {next : α → (stop : Cursor) → P stop → Outcome Q β}
    (failed : read = .error fault) :
    Ending.Fails (afterRead read modes next) fault := by
  rw [failed]
  exact fails_failure

end Outcome

namespace StreamOutcome

variable {β : Type} {Q : Cursor → Prop}

/-- What comes behind trivia fails. -/
theorem fails_onNextStart
    {stream : TokenStream}
    {modes : ModeStack}
    {next : (start : Cursor) → stream.cursor ≤ start → StreamOutcome Q β}
    {first : Cursor}
    (skipped : skipTrivia stream.cursor = ⟨.ok (), first⟩)
    (fails : ∀ reached, Ending.Fails (next first reached) fault) :
    Ending.Fails (stream.onNextStart modes next) fault := by
  have starts : stream.nextStart = .ok first := by
    rw [TokenStream.nextStart]
    split <;> rename_i found <;> rw [skipped] at found <;> cases found
    rfl
  unfold TokenStream.onNextStart
  split <;> rename_i found <;> rw [starts] at found <;> cases found
  exact fails _

end StreamOutcome

/-! ## What fails -/

/-- A tag is ahead, and its element fails with this fault where so many levels are left. -/
structure FailsElement (level : Nat) (fault : Fault) (start : Cursor) : Prop where
  tag : startsMarkup start.rest = true
  fails : ∀ remembers limit modes ahead, modes.Admits level →
    Ending.Fails (readElementBehind (hostBehind remembers limit) modes start ahead) fault

/-- The rest of the tag header at the cursor fails with this fault. -/
def FailsHeaderTail (level : Nat) (fault : Fault) (start : Cursor) : Prop :=
  ∀ remembers limit modes depth ahead tag opened,
    modes.mode = .tagHeader depth → level ≤ modes.levels →
    Ending.Fails (readHeaderTail (hostBehind remembers limit) modes start ahead tag opened) fault

/-- The content of the element `name` at the cursor fails with this fault. -/
def FailsContent (level : Nat) (fault : Fault) (name : String) (start : Cursor) : Prop :=
  ∀ remembers limit modes depth ahead opened left,
    modes.mode = .tagContent depth → level ≤ modes.levels →
    Ending.Fails
      (readContentBehind (hostBehind remembers limit) modes start ahead name opened left) fault

/-- The entry at the cursor makes a tag header fail with this fault. -/
inductive EntryFails (fault : Fault) (here : Cursor) : Nat → Prop
  | number {level : Nat} {ch : Char} {token : List Char} :
      here.textWhile (!isNameDelimiter ·) = ch :: token →
      ch.isDigit = true →
      fault = .markup (.nameStartsWithDigit (String.ofList (ch :: token))) here.position →
      EntryFails fault here level
  | value {level : Nat} {name : List Char} {behind : Cursor} :
      here.textWhile (!isNameDelimiter ·) = name →
      IsAttributeName name →
      (here.advanceBy name.length).skipBlanks.eat? '=' = some behind →
      behind.skipBlanks.peek? = some '\x7b' →
      FailsElement level fault behind.skipBlanks.advance.skipBlanks →
      EntryFails fault here (level + 1)
  | spread {level : Nat} {behind : Cursor} :
      here.peek? = some '\x7b' →
      here.advance.skipBlanks.eatText? "..." = some behind →
      FailsElement level fault behind.skipBlanks →
      EntryFails fault here (level + 1)

/-- The mark at the cursor makes the content of the element `name` fail with this fault. -/
inductive MarkFails (fault : Fault) (name : String) (here : Cursor) : Nat → Prop
  | closingTag {level : Nat} {more : List Char} :
      here.rest = '<' :: '/' :: more →
      readClosingTag here name = .error fault →
      MarkFails fault name here level
  | element {level : Nat} :
      FailsElement level fault here →
      MarkFails fault name here level
  | hole {level : Nat} :
      here.peek? = some '\x7b' →
      FailsElement level fault here.advance.skipBlanks →
      MarkFails fault name here (level + 1)

variable
  {level : Nat}
  {c d here behind middle : Cursor}
  {remembers : Bool}
  {limit : Cursor}
  {modes : ModeStack}
  {owner : HoleOwner}
  {depth : Nat}

/-! ## Holes -/

/-- An element that nothing stands in front of fails as an expression too. -/
theorem fails_readExpression
    {stream : TokenStream}
    (fails : FailsElement level fault stream.cursor)
    (admits : modes.Admits (level + 1)) :
    Ending.Fails (readExpression 0 modes stream) fault := by
  have next := peek?_eq_some_iff.mpr (exists_rest_of_startsMarkup fails.tag)
  have skipped := skipTrivia_eq_self next rfl (by decide) (by decide)
  rw [readExpression]
  refine StreamOutcome.fails_onNextStart skipped fun _ => ?_
  have enough : 0 < modes.levels := Nat.lt_of_lt_of_le (Nat.succ_pos level) admits.enough
  have entered : ModeStack.enterExpression stream.cursor.position modes = .ok () modes.charged :=
    ModeStack.enterExpression_eq_ok.mpr ⟨enough, rfl⟩
  simp only [entered]
  refine .mapModes (.andThen ?_)
  rw [readOperand]
  refine StreamOutcome.fails_onNextStart skipped fun _ => ?_
  rw [if_pos fails.tag]
  obtain ⟨after, failed⟩ := fails.fails stream.remembers stream.cursor modes.charged
    stream.cursor.le_refl admits.charged
  dsimp only [Ending.toOutcome] at failed
  unfold hostBehind at failed
  rw [failed]
  exact ⟨after, rfl⟩

theorem fails_readHoleExpression
    {ahead : limit < c}
    (fails : FailsElement level fault c)
    (inside : modes.mode = owner.frame depth)
    (enough : level + 1 ≤ modes.levels) :
    Ending.Fails
      (readHoleExpression (hostBehind remembers limit) (modes.push (.expressionHole depth owner)) c
        ahead)
      fault := by
  have admits := ModeStack.admits_push_hole inside enough
  have delegated := @fails_readExpression _ _ _ (.fresh remembers c) fails admits
  exact delegated.toOutcome.weaken.andThen

/-- A hole with nothing but an element fails with the element. -/
theorem fails_readHole
    {ahead : limit < c}
    (fails : FailsElement level fault c.skipBlanks)
    (inside : modes.mode = owner.frame depth)
    (enough : level + 1 ≤ modes.levels) :
    Ending.Fails (readHole (hostBehind remembers limit) modes c ahead) fault := by
  rw [readHole]
  refine Outcome.fails_afterStep (ModeStack.openHole_eq_ok.mpr ⟨owner, depth, inside, rfl⟩) ?_
  have filled : c.skipBlanks.peek? ≠ some '\x7d' := by
    rw [peek?_eq_some_iff.mpr (exists_rest_of_startsMarkup fails.tag)]
    decide
  dsimp only
  rw [if_neg filled]
  exact (fails_readHoleExpression fails inside enough).map.weaken

theorem fails_readSpread
    {ahead : limit < c}
    (dots : c.skipBlanks.eatText? "..." = some behind)
    (fails : FailsElement level fault behind.skipBlanks)
    (inside : modes.mode = owner.frame depth)
    (enough : level + 1 ≤ modes.levels) :
    Ending.Fails (readSpread (hostBehind remembers limit) modes c ahead) fault := by
  rw [readSpread]
  refine Outcome.fails_afterStep (ModeStack.openHole_eq_ok.mpr ⟨owner, depth, inside, rfl⟩) ?_
  split <;> rename_i found <;> rw [dots] at found <;> cases found
  exact (fails_readHoleExpression fails inside enough).weaken

theorem fails_readBraces
    {ahead : limit < c}
    (opens : c.peek? = some '\x7b')
    (fails : FailsElement level fault c.advance.skipBlanks)
    (inside : modes.mode = .tagContent depth)
    (enough : level + 1 ≤ modes.levels) :
    Ending.Fails (readBraces (hostBehind remembers limit) modes c ahead) fault := by
  obtain ⟨more, element⟩ := exists_rest_of_startsMarkup fails.tag
  have uncommented : readComment? c = .ok none := by
    refine (readComment?_eq_none_iff opens).mpr fun comment => ?_
    rw [startsWith, element] at comment
    cases comment
  have unspread : startsSpread c.advance.rest = false := by
    rw [startsSpread_rest, startsWith, element]
    rfl
  unfold readBraces
  simp only [uncommented]
  rw [if_neg (Bool.eq_false_iff.mp unspread)]
  exact (@fails_readHole _ _ _ _ _ _ .tagContent depth _ fails inside enough).andThen

/-! ## Tag headers -/

theorem fails_readAttribute_number
    {ahead : limit < c}
    {ch : Char}
    {token : List Char}
    {tag : String}
    (spelled : c.textWhile (!isNameDelimiter ·) = ch :: token)
    (digit : ch.isDigit = true) :
    Ending.Fails (readAttribute (hostBehind remembers limit) modes c ahead tag)
      (.markup (.nameStartsWithDigit (String.ofList (ch :: token))) c.position) := by
  have invalid : attributeNameFault? (ch :: token) =
      some (.nameStartsWithDigit (String.ofList (ch :: token))) := by
    simp [attributeNameFault?, digit]
  unfold readAttribute
  split <;> rename_i spelled' <;> rw [spelled] at spelled' <;> cases spelled'
  split <;> rename_i found <;> rw [invalid] at found <;> cases found
  exact Outcome.fails_failure

theorem fails_readAttribute_value
    {ahead : limit < c}
    {name : List Char}
    {tag : String}
    (spelled : c.textWhile (!isNameDelimiter ·) = name)
    (named : IsAttributeName name)
    (equals : (c.advanceBy name.length).skipBlanks.eat? '=' = some behind)
    (opened : behind.skipBlanks.peek? = some '\x7b')
    (fails : FailsElement level fault behind.skipBlanks.advance.skipBlanks)
    (inside : modes.mode = .tagHeader depth)
    (enough : level + 1 ≤ modes.levels) :
    Ending.Fails (readAttribute (hostBehind remembers limit) modes c ahead tag) fault := by
  unfold readAttribute
  split
  · rename_i empty
    exact absurd (spelled.symm.trans empty) named.nonempty
  · rename_i first more spelled'
    obtain rfl := spelled.symm.trans spelled'
    rw [List.length_cons] at equals
    split
    · rename_i cause invalid
      rw [named.valid] at invalid
      cases invalid
    · dsimp only
      split <;> rename_i equals' <;> rw [equals] at equals' <;> cases equals'
      refine .andThen ?_
      unfold readAttributeValue
      simp only [opened]
      exact (@fails_readHole _ _ _ _ _ _ .tagHeader depth _ fails inside enough).andThen

/-- What is no delimiter is read as an attribute. -/
theorem failsHeaderTail_of_attribute
    {ch : Char}
    (next : c.skipBlanks.peek? = some ch)
    (letter : isNameDelimiter ch = false)
    (fails : ∀ remembers limit modes depth ahead tag,
      modes.mode = .tagHeader depth → level ≤ modes.levels →
      Ending.Fails (readAttribute (hostBehind remembers limit) modes c.skipBlanks ahead tag)
        fault) :
    FailsHeaderTail level fault c := by
  intro remembers limit modes depth ahead tag opened inside enough
  rw [readHeaderTail]
  split <;> rename_i found <;> rw [next] at found <;> cases found
  · cases letter
  · cases letter
  · cases letter
  · exact (fails remembers limit modes depth _ tag inside enough).andThen

/-- A header fails with its next entry. -/
theorem EntryFails.failsHeaderTail
    (fails : EntryFails fault here level)
    (next : c.skipBlanks = here) :
    FailsHeaderTail level fault c := by
  subst next
  cases fails with
  | number spelled digit same =>
      subst same
      obtain ⟨ch, next, letter⟩ := exists_peek?_of_textWhile spelled (List.cons_ne_nil _ _)
      refine failsHeaderTail_of_attribute next letter ?_
      intro remembers limit modes depth ahead tag inside enough
      exact fails_readAttribute_number spelled digit
  | value spelled named equals opened fails =>
      obtain ⟨ch, next, letter⟩ := exists_peek?_of_textWhile spelled named.nonempty
      refine failsHeaderTail_of_attribute next letter ?_
      intro remembers limit modes depth ahead tag inside enough
      exact fails_readAttribute_value spelled named equals opened fails inside enough
  | spread opens dots fails =>
      intro remembers limit modes depth ahead tag opened inside enough
      rw [readHeaderTail]
      split <;> rename_i found <;> rw [opens] at found <;> cases found
      · exact (@fails_readSpread _ _ _ _ _ _ _ .tagHeader depth _ dots fails inside
          enough).andThen
      · contradiction

/-- A header goes on behind a spread. -/
theorem failsHeaderTail_spreadItem
    {inner : Expression}
    (opens : c.skipBlanks.eat? '\x7b' = some behind)
    (spread : Reads level (.spread inner) behind middle)
    (fails : FailsHeaderTail level fault middle) :
    FailsHeaderTail level fault c := by
  intro remembers limit modes depth ahead tag opened inside enough
  obtain ⟨next, rfl⟩ := eat?_eq_some_iff.mp opens
  rw [readHeaderTail]
  split <;> rename_i found <;> rw [next] at found <;> cases found
  · refine (spread.isRead remembers limit modes .tagHeader depth _ inside enough).fails_andThen
      fun _ => ?_
    exact (fails remembers limit modes depth _ tag opened inside enough).map.weaken
  · contradiction

/-- A header goes on behind an attribute. -/
theorem failsHeaderTail_attributeItem
    {item : Attribute Expression}
    (reads : Reads level (.attribute item) c.skipBlanks middle)
    (fails : FailsHeaderTail level fault middle) :
    FailsHeaderTail level fault c := by
  intro remembers limit modes depth ahead tag opened inside enough
  obtain ⟨⟨ch, next, letter⟩, yields⟩ := reads.isRead
  rw [readHeaderTail]
  split <;> rename_i found <;> rw [next] at found <;> cases found
  · cases letter
  · cases letter
  · cases letter
  · refine (yields remembers limit modes depth _ tag inside enough).fails_andThen fun _ => ?_
    exact (fails remembers limit modes depth _ tag opened inside enough).map.weaken

theorem startsMarkup_of_readTagName
    {name : String}
    {reached : c.skipBlanks ≤ middle}
    (opens : d.eat? '<' = some c)
    (named : readTagName c.skipBlanks = .ok ⟨name, middle, reached⟩) :
    startsMarkup d.rest = true := by
  refine startsMarkup_iff.mpr ⟨c, opens, .inr ?_⟩
  rw [rest_of_readTagName named]
  exact startsIdentifier_append (isTagName_of_readTagName named).start

/-- An element fails with the entries of its header. -/
theorem failsElement_of_headerTail
    {name : String}
    {reached : here ≤ middle}
    (opens : d.eat? '<' = some c)
    (next : c.skipBlanks = here)
    (named : readTagName here = .ok ⟨name, middle, reached⟩)
    (fails : FailsHeaderTail level fault middle) :
    FailsElement (level + 1) fault d := by
  subst next
  refine ⟨startsMarkup_of_readTagName opens named, ?_⟩
  intro remembers limit modes ahead admits
  rw [readElementBehind]
  split <;> rename_i found <;> rw [opens] at found <;> cases found
  refine Outcome.fails_afterStep admits.openTag (.andThen ?_)
  unfold readHeader
  dsimp only
  split <;> rename_i closed <;> rw [eat?_eq_none_of_readTagName named] at closed <;> cases closed
  refine Outcome.fails_afterRead named ?_
  exact (fails remembers limit _ _ _ name _ rfl (admits.enough_push .tagHeader)).map.weaken

/-! ## Content -/

/-- An element fails with its content. -/
theorem failsElement_of_content
    {header : Header Expression}
    (opens : d.eat? '<' = some c)
    (reads : Reads level (.header header) c behind)
    (ending : header.ending = .content)
    (fails : FailsContent level fault header.name behind) :
    FailsElement (level + 1) fault d := by
  have tag : startsMarkup d.rest = true := by
    cases reads with
    | fragmentHeader closed =>
        exact startsMarkup_iff.mpr ⟨c, opens, .inl (by rw [closed]; rfl)⟩
    | namedHeader named => exact startsMarkup_of_readTagName opens named
  refine ⟨tag, ?_⟩
  intro remembers limit modes ahead admits
  rw [readElementBehind]
  split <;> rename_i found <;> rw [opens] at found <;> cases found
  refine Outcome.fails_afterStep admits.openTag ?_
  refine (reads.isRead remembers limit _ _ _ _ rfl (admits.enough_push .tagHeader)).fails_andThen
    fun _ => ?_
  simp only [ending]
  refine Outcome.fails_afterStep ModeStack.enterContent_push ?_
  exact (fails remembers limit _ _ _ _ _ rfl (admits.enough_push .tagContent)).andThen

variable {name : String}

/-- A mark is ahead where one makes content fail. -/
theorem MarkFails.startsMark (fails : MarkFails fault name here level) : StartsMark here.rest := by
  cases fails with
  | closingTag ahead =>
      rw [ahead]
      exact .inl rfl
  | element fails =>
      obtain ⟨more, ahead⟩ := exists_rest_of_startsMarkup fails.tag
      rw [ahead]
      exact .inl rfl
  | hole opens => exact .inr opens

/-- Content fails with its next mark. -/
theorem MarkFails.failsContent
    {raw : List Char}
    (fails : MarkFails fault name here level)
    (passes : c.Passes raw here)
    (unmarked : Unmarked raw here.rest) :
    FailsContent level fault name c := by
  intro remembers limit modes depth ahead opened left inside enough
  have meets {mark : ContentMark} (marked : ContentMark.next here.rest = (0, mark)) :
      (ContentMark.next c.rest).2 = mark ∧ c.advanceBy (ContentMark.next c.rest).1 = here := by
    rw [passes.1, ContentMark.next_append unmarked, marked]
    exact ⟨rfl, passes.2.symm⟩
  rw [readContentBehind]
  cases fails with
  | closingTag tag failed =>
      obtain ⟨marked, rfl⟩ := meets (by rw [tag, ContentMark.next_closingTag])
      simp only [marked]
      exact Outcome.fails_afterRead_error failed
  | element fails =>
      obtain ⟨marked, rfl⟩ := meets (ContentMark.next_of_startsMarkup fails.tag)
      have admits := ModeStack.admits_of_tagContent inside enough
      simp only [marked]
      exact (fails.fails remembers limit modes _ admits).andThen
  | hole opens fails =>
      obtain ⟨more, brace⟩ := peek?_eq_some_iff.mp opens
      obtain ⟨marked, rfl⟩ := meets (by rw [brace, ContentMark.next_brace])
      simp only [marked]
      exact (fails_readBraces opens fails inside enough).andThen

/-- Content goes on behind a child. -/
theorem failsContent_child
    {length : Nat}
    {boundary : Boundary}
    {child : Child Expression}
    (isRead : IsReadChild level c middle length boundary child)
    (fails : FailsContent level fault name middle) :
    FailsContent level fault name c := by
  intro remembers limit modes depth ahead opened left inside enough
  obtain ⟨_, goesOn⟩ := isRead.readContentBehind_eq inside enough
  rw [goesOn]
  exact (fails remembers limit modes depth _ _ _ inside enough).map.weaken

end EmbeddedMarkup
