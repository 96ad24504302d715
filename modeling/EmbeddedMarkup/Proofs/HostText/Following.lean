import EmbeddedMarkup.Proofs.Expression.Following
import EmbeddedMarkup.Proofs.HostText.LineEnds
import EmbeddedMarkup.Proofs.HostText.Tracking

/-!
# Documents in two renderings

A scanner stops in front of the same markup however the line ends of a text are written, and the
readers of markup follow themselves, so two documents of one text in two renderings say the same.

Where the line ends of the second text are pairs, this means that neither the text of a document nor
the message of a fault shows which line ends there are, and that lines and columns are the same.
Only offsets count the carriage returns.
-/

namespace EmbeddedMarkup

variable {r : Rendering}

namespace HostScanner

/-- The second scanner finds what the first one finds. -/
inductive FindsFollow (r : Rendering) : HostFinding → HostFinding → Prop
  | ended : FindsFollow r (.ok none) (.ok none)
  | found {start start' : Cursor} :
      r.Aligned start start' →
      FindsFollow r (.ok (some start)) (.ok (some start'))
  | fault {cause : HostTextCause} {place : Position} :
      FindsFollow r (.error ⟨cause, place⟩) (.error ⟨cause, r.place place⟩)

/-- Units end where they end in the other text, so the same markup is found behind them. -/
theorem findsFollow_next
    {scanner other : HostScanner}
    (aligned : r.Aligned scanner.cursor other.cursor)
    (same : other.expressionStart = scanner.expressionStart) :
    FindsFollow r scanner.next.1 other.next.1 := by
  obtain ⟨cursor, start⟩ := other
  dsimp only at aligned same
  subst same
  have here := Rendering.skipBlanks aligned
  have rest := r.rest_eq here
  have inLine {scanner : HostScanner} {first : Char} {rest : List Char}
      (ahead : scanner.cursor.skipBlanks.rest = first :: rest) :
      isLineEnd first = false :=
    isLineEnd_of_isBlank (scanner.cursor.visible_skipBlanks first
      (Cursor.peek?_eq_some_iff.mpr ⟨rest, ahead⟩))
  fun_induction next scanner generalizing cursor with
  | case1 scanner here' ended =>
      have next := @next_of_ended ⟨cursor, scanner.expressionStart⟩ (by rw [rest, ended]; rfl)
      rw [next]
      exact .ended
  | case2 scanner here' first more ahead markup =>
      have visible := inLine ahead
      rw [ahead, LineEnds.write_cons_of_ne (ne_feed_of_isLineEnd visible)] at rest
      have next := @next_of_ahead ⟨cursor, scanner.expressionStart⟩ _ _ rest
      rw [next, LineEnds.hostAhead_write visible, markup]
      exact .found here
  | case3 scanner here' first more ahead unit pass ih =>
      have visible := inLine ahead
      have noFeed := ne_feed_of_isLineEnd visible
      rw [ahead, LineEnds.write_cons_of_ne noFeed] at rest
      have next := @next_of_ahead ⟨cursor, scanner.expressionStart⟩ _ _ rest
      have behind := r.aligned_advanceBy here (unit.tail + 1)
      rw [ahead, LineEnds.reach_cons_succ_of_ne noFeed] at behind
      rw [next, LineEnds.hostAhead_write visible, pass]
      exact ih _ behind (Rendering.skipBlanks behind) (r.rest_eq (Rendering.skipBlanks behind))
  | case4 scanner here' first more ahead cause unterminated =>
      have visible := inLine ahead
      rw [ahead, LineEnds.write_cons_of_ne (ne_feed_of_isLineEnd visible)] at rest
      have next := @next_of_ahead ⟨cursor, scanner.expressionStart⟩ _ _ rest
      rw [next, LineEnds.hostAhead_write visible, unterminated]
      dsimp only [HostAhead.map]
      rw [r.position_eq here]
      exact .fault

end HostScanner

/-- The second result follows the first one, with values that `R` relates. -/
inductive ResultFollows
    {α α' : Type}
    (r : Rendering)
    (R : α → α' → Prop) :
    Except Fault α → Except Fault α' → Prop
  | ok {value : α} {value' : α'} :
      R value value' →
      ResultFollows r R (.ok value) (.ok value')
  | error {fault fault' : Fault} :
      fault.Follows r fault' →
      ResultFollows r R (.error fault) (.error fault')

theorem ResultFollows.map
    {α α' β β' : Type}
    {R : α → α' → Prop}
    {S : β → β' → Prop}
    {result : Except Fault α}
    {result' : Except Fault α'}
    {k : α → β}
    {k' : α' → β'}
    (follows : ResultFollows r R result result')
    (keeps : ∀ value value', R value value' → S (k value) (k' value')) :
    ResultFollows r S (result.map k) (result'.map k') := by
  cases follows with
  | ok related => exact .ok (keeps _ _ related)
  | error same => exact .error same

/-- Elements with host expressions in their holes follow each other. -/
theorem follows_readElement
    {modes : ModeStack}
    {start start' : Cursor}
    (aligned : r.Aligned start start') :
    Ending.Follows r (Element.Follows r (Expression.Follows r))
      (readElement hostDelegate modes start)
      (readElement hostDelegate modes start') := by
  have delegates : DelegateBehind.Follows r (Expression.Follows r) (hostDelegate.behind start)
      (hostDelegate.behind start') :=
    fun modes inside inside' _ _ aligned =>
      (@follows_readExpression _ 0 modes (.fresh true inside) (.fresh true inside')
        aligned).toOutcome.weaken
  exact follows_readElementBehind delegates aligned

namespace Document

/-- The elements ahead of two scanners at the same place follow each other. -/
theorem follows_elementsFrom
    {modes : ModeStack}
    {scanner other : HostScanner}
    (aligned : r.Aligned scanner.cursor other.cursor)
    (same : other.expressionStart = scanner.expressionStart) :
    ResultFollows r (List.Forall₂ (Element.Follows r (Expression.Follows r)))
      (elementsFrom modes scanner) (elementsFrom modes other) := by
  induction size : scanner.cursor.size using Nat.strongRecOn generalizing scanner other modes with
  | ind size shorter =>
      subst size
      have finds := HostScanner.findsFollow_next aligned same
      rw [elementsFrom_eq_match, elementsFrom_eq_match]
      cases found : scanner.next.1 with
      | error fault =>
          rw [found] at finds
          generalize other.next.1 = found' at finds ⊢
          cases finds with
          | fault => exact .error (Fault.follows_of_place rfl)
      | ok start =>
          rw [found] at finds
          generalize other.next.1 = found' at finds ⊢
          cases finds with
          | ended => exact .ok .nil
          | @found start start' there =>
              have reached : scanner.cursor ≤ start :=
                @HostScanner.le_of_next _ scanner.next.2 _ (Prod.ext found rfl)
              have fewer := Cursor.size_le_of_le reached
              have element := @follows_readElement r modes start start' there
              dsimp only
              generalize readElement hostDelegate modes start = outcome at element ⊢
              generalize readElement hostDelegate modes start' = outcome' at element ⊢
              cases element with
              | failure same => exact .error same
              | @success element element' modes stop stop' passed _ follows behind =>
                  have passed := Nat.lt_of_lt_of_le (Cursor.size_lt_of_lt passed) fewer
                  exact (@shorter _ passed modes ⟨stop, false⟩ ⟨stop', false⟩ behind rfl rfl).map
                    fun _ _ => .cons follows

/--
Line ends change nothing but offsets.  A text without carriage returns is read with the same result
when every line feed in it is written as a carriage return and a line feed: both texts are documents
or neither is.  The faults are of the same kind, with the same message in the same line and column.
The documents have the same elements, with the same spans as far as lines and columns go, where the
strings and the comments in them are compared without carriage returns.  Every offset is the one of
the same place in the other text.
-/
theorem ofText_paired
    (text : String)
    (budget : Nat)
    (plain : '\r' ∉ text.toList) :
    (∃ document document',
      ofText text budget = .ok document ∧
        ofText (String.ofList (LineEnds.paired.write text.toList)) budget = .ok document' ∧
        document'.elements.map (Element.retell LineEnds.paired.plain id) =
          document.elements.map
            (Element.retell LineEnds.paired.plain (pairedSpan text.toList))) ∨
    ∃ fault fault',
      ofText text budget = .error fault ∧
        ofText (String.ofList (LineEnds.paired.write text.toList)) budget = .error fault' ∧
        fault'.cause.kind = fault.cause.kind ∧
        fault'.cause.message = fault.cause.message ∧
        fault'.position = pairedPosition text.toList fault.position := by
  have elements := @follows_elementsFrom (.paired text.toList plain) (.initial budget)
    (.ofText text) (.ofText (String.ofList (LineEnds.paired.write text.toList)))
    (pairedAt_ofText text) rfl
  unfold ofText
  generalize elementsFrom (.initial budget) (.ofText text) = result at elements ⊢
  generalize elementsFrom (.initial budget)
    (.ofText (String.ofList (LineEnds.paired.write text.toList))) = result' at elements ⊢
  cases elements with
  | ok follow =>
      refine .inl ⟨_, _, rfl, rfl, ?_⟩
      exact map_eq_map_of_forall₂ (follow.imp fun element _ => Element.retell_eq_of_follows element)
  | error same =>
      exact .inr ⟨_, _, rfl, rfl, same.cause.kind_eq, same.cause.message_eq, same.position⟩

/-- A tag with a line end in it is read in both renderings. -/
theorem ofText_paired_tag :
    '\r' ∉ "<b\n/>".toList ∧
      ∃ budget read read',
        ofText "<b\n/>" budget = .ok ⟨[read]⟩ ∧
          ofText "<b\r\n/>" budget = .ok ⟨[read']⟩ ∧
          read'.retell LineEnds.paired.plain id =
            read.retell LineEnds.paired.plain (pairedSpan "<b\n/>".toList) := by
  have written : IsElement "<b\n/>".toList ⟨"b", [], [], none, default⟩ :=
    (@Writes.selfClosing ['b'] [] _ _ default blank_nil (.segment ⟨rfl, by decide⟩)
      (@Writes.selfClosingEnd ['\n'] (blank_cons.mpr ⟨rfl, blank_nil⟩))).isReadAs
  have nothing : (HostScanner.next ⟨(Cursor.ofText "<b\n/>").advanceBy 5, false⟩).1 = .ok none :=
    congrArg Prod.fst (HostScanner.next_of_ended rfl)
  obtain ⟨budget, reads⟩ := exists_ofText_element written (List.append_nil _).symm nothing
  obtain ⟨read, first⟩ := reads budget (Nat.le_refl _)
  have plain : '\r' ∉ "<b\n/>".toList := by decide
  have spelled : String.ofList (LineEnds.paired.write "<b\n/>".toList) = "<b\r\n/>" := by decide
  refine ⟨plain, budget, read, ?_⟩
  rcases ofText_paired "<b\n/>" budget plain with
    ⟨document, ⟨elements'⟩, same, second, retold⟩ | ⟨fault, _, failed, -⟩
  · rw [first] at same
    cases same
    obtain ⟨read', rfl, same⟩ := List.map_eq_singleton_iff.mp retold
    rw [spelled] at second
    exact ⟨read', first, second, same⟩
  · rw [first] at failed
    cases failed

end Document

end EmbeddedMarkup
