import EmbeddedMarkup.Proofs.Markup.TagNames
import EmbeddedMarkup.Proofs.Reading.MarkupSoundness
import EmbeddedMarkup.Proofs.Reading.Stages
import Mathlib.Data.List.TakeWhile

/-!
# Stages of reading markup

The readers of markup are called at their stages, and what they have read before a fault has brought
them there.  So the faults that they find are accounted for, if those in holes are: the position
that they tell of an unterminated element is that of its `<`, which they have been handed on, and
the position that they tell of anything else that is left open is that of its opening, where they
stand.  Markup starts wherever an element is asked for, and the names of an element that is made
have been compared, so the causes that no cursor bears out are never told.
-/

namespace EmbeddedMarkup

open Cursor

variable {limit origin start c inside : Cursor} {first : Stage} {modes : ModeStack}

/-- The delegate follows the rules, and accounts for its faults where an expression is read. -/
structure DelegateBehind.AccountsFor
    (first : Stage)
    (origin : Cursor)
    (delegate : DelegateBehind Expression limit) : Prop where
  follows : delegate.FollowsRules
  accounts : ∀ modes start ahead,
    modes.frames ≠ [] → Arrives first origin .expression start →
    (delegate modes start ahead).AccountsFor first origin

/-! ## The ends of headers -/

namespace Arrives

variable {level : Nat} {opened d : Cursor} {name : String}

/-- Reading arrives in content behind a header that does not end the element. -/
theorem behindHeaderTail
    {tail : HeaderTail Expression}
    (arrives : Arrives first origin (.header opened name) c)
    (reads : Reads level (.headerTail tail) c d)
    (ending : tail.2 = .content) :
    Arrives first origin (.content opened name) d := by
  generalize same : Phrase.headerTail tail = phrase at reads
  induction reads generalizing tail with
  | headerEnd closed =>
      cases same
      exact .headerEnd arrives closed
  | selfClosingEnd =>
      cases same
      cases ending
  | @spreadItem _ _ rest _ _ _ _ opens reads _ _ ih =>
      cases same
      exact @ih rest (.behindSpread arrives opens reads) ending rfl
  | @attributeItem _ _ rest _ _ _ reads _ _ ih =>
      cases same
      exact @ih rest (.behindAttribute arrives reads) ending rfl
  | _ => cases same

theorem behindHeader
    {header : Header Expression}
    (arrives : Arrives first origin .element c)
    (opens : c.eat? '<' = some inside)
    (reads : Reads level (.header header) inside d)
    (ending : header.ending = .content) :
    Arrives first origin (.content c header.name) d := by
  cases reads with
  | fragmentHeader closed => exact .fragment arrives opens closed
  | namedHeader named tail => exact behindHeaderTail (.name arrives opens named) tail ending

end Arrives

/-! ## Holes -/

theorem accountsFor_leaveHole
    {α : Type}
    {value : α}
    (reached : origin ≤ start) :
    (leaveHole value modes start).AccountsFor first origin := by
  have skipped := Cursor.le_trans reached start.le_skipBlanks
  refine .afterRead ?_ fun _ stop closed _ => ?_
  · intro fault failed
    unfold readHoleEnd at failed
    split at failed
    · cases failed
    · split at failed <;> cases failed <;>
        exact Fault.isAccountedFor_markup skipped trivial trivial
  · exact .afterStep ModeStack.opensNoTag_closeHole
      (Cursor.le_trans skipped (Cursor.le_of_lt closed)) fun _ _ _ => .success

section Readers

variable {delegate : DelegateBehind Expression limit}

theorem accountsFor_readHoleExpression
    {ahead : limit < start}
    (accounts : delegate.AccountsFor first origin)
    (proper : modes.frames ≠ [])
    (arrives : Arrives first origin .expression start) :
    (readHoleExpression delegate modes start ahead).AccountsFor first origin := by
  refine (accounts.accounts modes start ahead proper arrives).andThen ?_
  intro expression modes behind read _
  exact (accountsFor_leaveHole (Cursor.le_trans arrives.le read)).weaken

theorem accountsFor_readHole
    {ahead : limit < start}
    (accounts : delegate.AccountsFor first origin)
    (arrives : Arrives first origin .hole start) :
    (readHole delegate modes start ahead).AccountsFor first origin := by
  refine .afterStep ModeStack.opensNoTag_openHole arrives.le ?_
  intro _ after opened
  obtain ⟨owner, depth, -, rfl⟩ := ModeStack.openHole_eq_ok.mp opened
  dsimp only
  split
  · exact (accountsFor_leaveHole (Cursor.le_trans arrives.le start.le_skipBlanks)).weaken
  · rename_i filled
    exact (accountsFor_readHoleExpression accounts (ModeStack.frames_push_ne_nil _ _)
      (.filledHole arrives filled)).map.weaken

theorem accountsFor_readSpread
    {opened : Cursor}
    {name : String}
    {ahead : limit < start}
    (accounts : delegate.AccountsFor first origin)
    (arrives : Arrives first origin (.header opened name) c)
    (opens : c.skipBlanks.eat? '\x7b' = some start) :
    (readSpread delegate modes start ahead).AccountsFor first origin := by
  have reached := Cursor.le_trans arrives.le (le_of_skipBlanks_eat? opens)
  refine .afterStep ModeStack.opensNoTag_openHole reached ?_
  intro _ after allowed
  obtain ⟨owner, depth, -, rfl⟩ := ModeStack.openHole_eq_ok.mp allowed
  split
  · exact .failure (Fault.isAccountedFor_markup
      (Cursor.le_trans reached start.le_skipBlanks) trivial trivial)
  · rename_i behind dots
    exact (accountsFor_readHoleExpression accounts (ModeStack.frames_push_ne_nil _ _)
      (.spreadOperand arrives opens dots)).weaken

/-! ## Headers -/

/-- A quote that cannot be eaten behind a quoted value does not occur. -/
theorem not_mem_of_eat?_eq_none
    {quote : Char}
    (failed : (c.advanceBy (c.textWhile (· != quote)).length).eat? quote = none) :
    quote ∉ c.rest := by
  have rest : (c.advanceBy (c.textWhile (· != quote)).length).rest =
      c.rest.dropWhile (· != quote) := by
    rw [rest_advanceBy, textWhile, drop_length_takeWhile]
  have unseen : (c.rest.dropWhile (· != quote)).head? = none := by
    cases next : (c.rest.dropWhile (· != quote)).head? with
    | none => rfl
    | some ch =>
        have same : ch = quote := by simpa using fails_of_head?_dropWhile next
        subst same
        rw [eat?, if_pos (by rw [peek?, rest, next])] at failed
        cases failed
  rw [List.head?_eq_none_iff, List.dropWhile_eq_nil_iff] at unseen
  intro member
  simpa using unseen quote member

theorem accountsFor_readQuotedValue
    {quote : Char}
    (isQuote : quote = '\'' ∨ quote = '"')
    (arrives : Arrives first origin .value start)
    (ahead : start.peek? = some quote) :
    ReadAccountsFor first origin
      (readQuotedValue start quote : Except Fault (Read (start ≤ ·) Expression)) := by
  intro fault failed
  unfold readQuotedValue at failed
  dsimp only at failed
  split at failed
  · rename_i unclosed
    cases failed
    obtain ⟨rest, chars⟩ := peek?_eq_some_iff.mp ahead
    have absent := not_mem_of_eat?_eq_none unclosed
    rw [rest_advance, chars, List.drop_one, List.tail_cons] at absent
    refine Fault.isAccountedFor_markup arrives.le ?_
      ⟨arrives, quote, rest, isQuote, chars, absent⟩
    rw [MarkupCause.Fits, Opens, chars]
    rcases isQuote with rfl | rfl
    · exact ⟨"'", by simp, rest, rfl⟩
    · exact ⟨"\"", by simp, rest, rfl⟩
  · cases failed

theorem accountsFor_readAttributeValue
    {ahead : limit < start}
    {name : String}
    (accounts : delegate.AccountsFor first origin)
    (arrives : Arrives first origin .value start) :
    (readAttributeValue delegate modes start ahead name).AccountsFor first origin := by
  unfold readAttributeValue
  split
  · rename_i next
    exact .afterRead (accountsFor_readQuotedValue (.inr rfl) arrives next)
      fun _ _ _ _ => .success
  · rename_i next
    exact .afterRead (accountsFor_readQuotedValue (.inl rfl) arrives next)
      fun _ _ _ _ => .success
  · rename_i next
    exact (accountsFor_readHole accounts (.valueHole arrives next)).andThen
      fun _ _ _ _ _ => .success
  · exact .failure (Fault.isAccountedFor_markup arrives.le trivial trivial)

theorem accountsFor_readAttribute
    {opened : Cursor}
    {name tag : String}
    {ahead : limit < c.skipBlanks}
    (accounts : delegate.AccountsFor first origin)
    (arrives : Arrives first origin (.header opened name) c) :
    (readAttribute delegate modes c.skipBlanks ahead tag).AccountsFor first origin := by
  have reached := Cursor.le_trans arrives.le c.le_skipBlanks
  unfold readAttribute
  split
  · exact .failure (Fault.isAccountedFor_markup reached trivial trivial)
  · rename_i first' more spelled
    dsimp only
    split
    · rename_i cause invalid
      unfold attributeNameFault? at invalid
      split at invalid
      · cases invalid
        exact .failure (Fault.isAccountedFor_markup reached trivial trivial)
      · split at invalid <;> cases invalid
        exact .failure (Fault.isAccountedFor_markup reached trivial trivial)
    · rename_i valid
      split
      · exact .success
      · rename_i behind equals
        have value := Arrives.value arrives spelled (List.cons_ne_nil _ _) valid equals
        exact (accountsFor_readAttributeValue accounts value).andThen fun _ _ _ _ _ => .success

/-- Where a header ends too early, its element is left open. -/
theorem accountsFor_readHeaderTail
    {opened : Cursor}
    {tag : String}
    {ahead : limit < start}
    (accounts : delegate.AccountsFor first origin)
    (whole : first.IsWhole)
    (arrives : Arrives first origin (.header opened tag) start) :
    (readHeaderTail delegate modes start ahead tag opened.position).AccountsFor first origin := by
  induction size : start.size using Nat.strongRecOn generalizing start modes with
  | ind size shorter =>
      subst size
      rw [readHeaderTail]
      dsimp only
      split
      · rename_i ended
        obtain ⟨element, opens⟩ := arrives.opensElement whole rfl
        have rest : start.skipBlanks.rest = [] := List.head?_eq_none_iff.mp ended
        exact .failure (Fault.isAccountedFor_markup element.le (.inl opens)
          (.inl ⟨element, opens, start, .inl ⟨arrives, rest⟩⟩))
      · exact .success
      · split
        · exact .success
        · exact .failure (Fault.isAccountedFor_markup
            (Cursor.le_trans arrives.le start.le_skipBlanks) trivial trivial)
      · rename_i next
        have opens : start.skipBlanks.eat? '\x7b' = some start.skipBlanks.advance :=
          eat?_eq_some_iff.mpr ⟨next, rfl⟩
        refine (accountsFor_readSpread accounts arrives opens).andThen ?_
        intro expression modes behind read yields
        have passed : start < behind :=
          Cursor.lt_of_le_of_lt start.le_skipBlanks (Cursor.lt_trans (lt_advance next) read)
        have reads := (reads_of_readSpread accounts.follows yields).2
        exact (shorter _ (size_lt_of_lt passed) (.behindSpread arrives opens reads)
          rfl).map.weaken
      · refine (accountsFor_readAttribute accounts arrives).andThen ?_
        intro item modes behind read yields
        have passed : start < behind := Cursor.lt_of_le_of_lt start.le_skipBlanks read
        have reads := (reads_of_readAttribute accounts.follows yields).2
        exact (shorter _ (size_lt_of_lt passed) (.behindAttribute arrives reads) rfl).map.weaken

theorem readAccountsFor_readDottedName (reached : origin ≤ start) :
    ReadAccountsFor first origin (readDottedName start) := by
  intro fault failed
  unfold readDottedName at failed
  dsimp only at failed
  split at failed <;> cases failed
  exact Fault.isAccountedFor_markup (Cursor.le_trans reached (start.le_advanceBy _)) trivial trivial

theorem accountsFor_readHeader
    {ahead : limit < inside}
    (accounts : delegate.AccountsFor first origin)
    (whole : first.IsWhole)
    (arrives : Arrives first origin .element start)
    (opens : start.eat? '<' = some inside) :
    (readHeader delegate modes inside ahead start.position).AccountsFor first origin := by
  have reached := Cursor.le_trans arrives.le
    (Cursor.le_trans (Cursor.le_of_lt (lt_of_eat? opens)) inside.le_skipBlanks)
  obtain ⟨_, opens', named⟩ := startsMarkup_iff.mp (arrives.startsMarkup whole)
  obtain rfl := Option.some.inj (opens.symm.trans opens')
  unfold readHeader
  dsimp only
  split
  · exact .success
  · rename_i unclosed
    rw [unclosed] at named
    have named := named.resolve_left Bool.false_ne_true
    refine .afterRead ?_ ?_
    · rw [readTagName, if_pos named]
      exact readAccountsFor_readDottedName reached
    · intro name behind passed read
      exact (accountsFor_readHeaderTail accounts whole (.name arrives opens read)).map.weaken

/-! ## Content -/

/-- A comment in braces that has no end is open behind the blank space behind the brace. -/
theorem readAccountsFor_readComment?
    (arrives : Arrives first origin .braces start) :
    ReadAccountsFor first origin (readComment? start) := by
  intro fault failed
  unfold readComment? at failed
  split at failed
  · cases failed
  · rename_i inside opened
    dsimp only at failed
    split at failed
    · rename_i comment
      split at failed
      · rename_i unended
        cases failed
        have reached := Cursor.le_trans arrives.le
          (Cursor.le_trans (Cursor.le_of_lt (lt_of_eat? opened)) inside.le_skipBlanks)
        obtain ⟨body, chars⟩ := List.isPrefixOf_iff_prefix.mp comment
        rw [← chars] at unended
        refine Fault.isAccountedFor_markup reached
          ⟨"/*", List.mem_singleton.mpr rfl, body, chars⟩
          ⟨⟨start, inside, arrives, opened, rfl⟩, ?_⟩
        exact chars ▸ leavesCommentOpen_of_blockCommentTail? unended
      · split at failed <;> cases failed
    · cases failed

theorem accountsFor_readBraces
    {ahead : limit < start}
    (accounts : delegate.AccountsFor first origin)
    (arrives : Arrives first origin .braces start) :
    (readBraces delegate modes start ahead).AccountsFor first origin := by
  unfold readBraces
  split
  · rename_i failed
    exact .failure (readAccountsFor_readComment? arrives _ failed)
  · exact .success
  · rename_i uncommented
    dsimp only
    split
    · exact .failure (Fault.isAccountedFor_markup arrives.le trivial trivial)
    · rename_i unspread
      have hole := Arrives.contentHole arrives uncommented (Bool.eq_false_iff.mpr unspread)
      exact (accountsFor_readHole accounts hole).andThen fun _ _ _ _ _ => .success

/-- A closing tag is spelled with its name behind blank space. -/
theorem rest_of_closingName
    {name : String}
    {more : List Char}
    {d : Cursor}
    {reached : (c.advanceBy 2).skipBlanks ≤ d}
    (ahead : c.rest = "</".toList ++ more)
    (read : readClosingName (c.advanceBy 2).skipBlanks = .ok ⟨name, d, reached⟩) :
    c.rest = "</".toList ++
      ((c.advanceBy 2).textTo (c.advanceBy 2).skipBlanks ++ (name.toList ++ d.rest)) := by
  have inside : (c.advanceBy 2).rest = more := rest_advanceBy_length ahead
  rw [← rest_of_readClosingName read, textTo_append_rest (c.advanceBy 2).le_skipBlanks, inside,
    ahead]

/-- A closing tag whose name is right is left open where the source ends behind the name. -/
theorem readAccountsFor_readClosingTag
    {opened : Cursor}
    {name : String}
    {length : Nat}
    (arrives : Arrives first origin (.content opened name) c)
    (mark : ContentMark.next c.rest = (length, .closingTag)) :
    ReadAccountsFor first origin (readClosingTag (c.advanceBy length) name) := by
  have reached := Cursor.le_trans arrives.le (c.le_advanceBy length)
  have entered := Cursor.le_trans (le_advanceBy (c.advanceBy length) 2) (Cursor.le_skipBlanks _)
  obtain ⟨-, -, here⟩ := ContentMark.unmarked_of_next mark
  obtain ⟨more, spelled⟩ := ContentMark.exists_of_next_closingTag here
  have chars : (c.advanceBy length).rest = "</".toList ++ more := by
    rw [rest_advanceBy]
    exact spelled
  have opens : (c.advanceBy length).Opens ["</"] :=
    ⟨"</", List.mem_singleton.mpr rfl, more, chars.symm⟩
  intro fault failed
  unfold readClosingTag at failed
  dsimp only at failed
  split at failed
  · rename_i unnamed
    cases failed
    unfold readClosingName at unnamed
    split at unnamed
    · exact readAccountsFor_readDottedName (Cursor.le_trans reached entered) _ unnamed
    · cases unnamed
  · rename_i closing named passed read
    split at failed
    · rename_i differs
      cases failed
      exact Fault.isAccountedFor_markup reached ⟨opens, Ne.symm differs⟩ trivial
    · rename_i same
      obtain rfl := Decidable.not_not.mp same
      split at failed
      · cases failed
      · split at failed <;> cases failed
        · rename_i ended
          have behind : Blank named.rest := by
            rw [isAtEnd, rest_skipBlanks, List.isEmpty_iff, List.dropWhile_eq_nil_iff] at ended
            exact ended
          exact Fault.isAccountedFor_markup reached (.inr opens) (.inr ⟨opened, c, length, _,
            named.rest, arrives, mark, rfl, rest_of_closingName chars read,
            blank_textTo_skipBlanks _, behind⟩)
        · exact Fault.isAccountedFor_markup (Cursor.le_trans (Cursor.le_trans reached entered)
            (Cursor.le_trans passed named.le_skipBlanks)) trivial trivial

/-- The names of an element that is made have been compared before. -/
theorem accountsFor_closeElement
    {header : Header Expression}
    {content : Content Expression}
    {stop : Cursor}
    {passed : start < stop}
    (reached : origin ≤ start)
    (same : content.2 = header.name) :
    (closeElement header content modes start stop passed).AccountsFor first origin := by
  refine .afterStep ModeStack.opensNoTag_closeTag
    (Cursor.le_trans reached (Cursor.le_of_lt passed)) ?_
  intro _ after _
  rw [Element.closed, if_pos same]
  exact .success

end Readers

/-! ## Elements -/

section Elements

variable
  {delegate : DelegateBehind Expression limit}
  (accounts : delegate.AccountsFor first origin)
  (whole : first.IsWhole)

include accounts whole

mutual

/-- What an element leaves open is accounted for. -/
theorem accountsFor_readElementBehind
    {modes : ModeStack}
    {start : Cursor}
    {ahead : limit ≤ start}
    (arrives : Arrives first origin .element start) :
    (readElementBehind delegate modes start ahead).AccountsFor first origin := by
  rw [readElementBehind]
  split
  · rename_i unopened
    obtain ⟨inside, opens, -⟩ := startsMarkup_iff.mp (arrives.startsMarkup whole)
    rw [unopened] at opens
    cases opens
  · rename_i inside opens
    refine .afterOpenTag arrives.le (arrives.startsMarkup whole) ?_
    intro _ after allowed
    obtain ⟨-, -, -, rfl⟩ := ModeStack.openTag_eq_ok.mp allowed
    refine (accountsFor_readHeader accounts whole arrives opens).andThen ?_
    intro header modes behind read yields
    obtain ⟨rfl, reads⟩ := reads_of_readHeader accounts.follows yields
    have passed : start < behind := Cursor.lt_trans (lt_of_eat? opens) read
    have farther : origin ≤ behind := Cursor.le_trans arrives.le (Cursor.le_of_lt passed)
    dsimp only
    split
    · exact .afterStep ModeStack.opensNoTag_selfClose farther fun _ _ _ => .success
    · rename_i ending
      refine .afterStep ModeStack.opensNoTag_enterContent farther ?_
      intro _ after entered
      rw [ModeStack.enterContent_push] at entered
      cases entered
      refine (accountsFor_readContentBehind (ModeStack.frames_push_ne_nil _ _)
        (arrives.behindHeader opens reads ending)).andThen ?_
      intro content modes stop read yields
      exact accountsFor_closeElement arrives.le (closing_eq_of_yields_readContentBehind yields)
termination_by (start.size, 0)
decreasing_by exact Prod.Lex.left _ _ (size_lt_of_lt passed)

theorem accountsFor_readContentBehind
    {modes : ModeStack}
    {opened start : Cursor}
    {ahead : limit < start}
    {name : String}
    {left : Boundary}
    (proper : modes.frames ≠ [])
    (arrives : Arrives first origin (.content opened name) start) :
    (readContentBehind delegate modes start ahead name opened.position left).AccountsFor first
      origin := by
  rw [readContentBehind]
  have moved := start.le_advanceBy (ContentMark.next start.rest).1
  dsimp only
  split
  · rename_i ended
    obtain ⟨element, opens⟩ := arrives.opensElement whole rfl
    exact .failure (Fault.isAccountedFor_markup element.le (.inl opens)
      (.inl ⟨element, opens, start, .inr ⟨arrives, ended⟩⟩))
  · rename_i mark
    exact .afterRead (readAccountsFor_readClosingTag arrives (Prod.ext rfl mark))
      fun _ _ _ _ => .success
  · rename_i mark
    have mark : ContentMark.next start.rest = ((ContentMark.next start.rest).1, .openingTag) :=
      Prod.ext rfl mark
    refine (accountsFor_readElementBehind (.child arrives mark)).andThen ?_
    intro element modes behind read yields
    obtain ⟨rfl, reads⟩ := reads_of_readElementBehind accounts.follows proper yields
    have passed : start < behind := Cursor.lt_of_le_of_lt moved read
    exact (accountsFor_readContentBehind proper (.behindChild arrives mark reads)).map.weaken
  · rename_i mark
    have mark : ContentMark.next start.rest = ((ContentMark.next start.rest).1, .brace) :=
      Prod.ext rfl mark
    refine (accountsFor_readBraces accounts (.braces arrives mark)).andThen ?_
    intro child modes behind read yields
    obtain ⟨rfl, reads⟩ := reads_of_readBraces accounts.follows yields
    have passed : start < behind := Cursor.lt_of_le_of_lt moved read
    exact (accountsFor_readContentBehind proper (.behindBraces arrives mark reads)).map.weaken
termination_by (start.size, 1)
decreasing_by
  · rcases Nat.lt_or_eq_of_le (size_le_of_le moved) with less | same
    · exact Prod.Lex.left _ _ less
    · rw [same]
      exact Prod.Lex.right _ Nat.zero_lt_one
  · exact Prod.Lex.left _ _ (size_lt_of_lt passed)
  · exact Prod.Lex.left _ _ (size_lt_of_lt passed)

end

end Elements

end EmbeddedMarkup
