import EmbeddedMarkup.Proofs.Expression.Tracking
import EmbeddedMarkup.Proofs.HostText.Agreement
import EmbeddedMarkup.Proofs.Text.Exchange

/-!
# Two runs over whole texts

What a scanner finds depends on the characters ahead alone, so two scanners in front of the same
characters find the same, and documents track each other because elements do.  A text that is one
expression is read to its end in both runs.
-/

namespace EmbeddedMarkup

/-- What a scanner finds: markup, the end of the text, or a fault. -/
abbrev HostFinding : Type :=
  Except HostTextFault (Option Cursor)

namespace HostScanner

variable {scanner : HostScanner} {first : Char} {rest : List Char}

/-- What scanners in front of the same characters find, at positions that are related. -/
inductive FindsAlike (R : Position → Position → Prop) : HostFinding → HostFinding → Prop
  | ended : FindsAlike R (.ok none) (.ok none)
  | found {start start' : Cursor} :
      start.Alike R start' →
      FindsAlike R (.ok (some start)) (.ok (some start'))
  | fault {cause : HostTextCause} {place place' : Position} :
      R place place' →
      FindsAlike R (.error ⟨cause, place⟩) (.error ⟨cause, place'⟩)

/-- A scanner looks at the characters ahead only. -/
theorem findsAlike_next
    {R : Position → Position → Prop}
    {other : HostScanner}
    (steady : Cursor.IsSteady R)
    (alike : scanner.cursor.Alike R other.cursor)
    (same : other.expressionStart = scanner.expressionStart) :
    FindsAlike R scanner.next.1 other.next.1 := by
  obtain ⟨cursor, start⟩ := other
  dsimp only at alike same
  subst same
  have here := alike.skipBlanks steady
  fun_induction next scanner generalizing cursor with
  | case1 scanner here' ended =>
      have next := @next_of_ended ⟨cursor, scanner.expressionStart⟩ (here.rest.trans ended)
      rw [next]
      exact .ended
  | case2 scanner here' first rest ahead markup =>
      have next := @next_of_ahead ⟨cursor, scanner.expressionStart⟩ _ _ (here.rest.trans ahead)
      rw [next, markup]
      exact .found here
  | case3 scanner here' first rest ahead unit pass ih =>
      have next := @next_of_ahead ⟨cursor, scanner.expressionStart⟩ _ _ (here.rest.trans ahead)
      have behind := here.advanceBy steady (unit.tail + 1)
      rw [next, pass]
      exact ih _ behind (behind.skipBlanks steady)
  | case4 scanner here' first rest ahead cause unterminated =>
      have next := @next_of_ahead ⟨cursor, scanner.expressionStart⟩ _ _ (here.rest.trans ahead)
      rw [next, unterminated]
      exact .fault here.position

end HostScanner

namespace Shift

variable (shift : Shift)

/-- The scanner in front of the same characters. -/
def scanner (scanner : HostScanner) : HostScanner :=
  ⟨shift.cursor scanner.cursor, scanner.expressionStart⟩

/-- What a scanner finds in front of the same characters. -/
def finding : Except HostTextFault (Option Cursor) → Except HostTextFault (Option Cursor)
  | .ok found => .ok (found.map shift.cursor)
  | .error fault => .error (shift.fault fault)

/-- A scanner finds the same behind what was put in front. -/
theorem next_scanner (scanner : HostScanner) :
    (shift.scanner scanner).next.1 = shift.finding scanner.next.1 := by
  have steady : Cursor.IsSteady fun place place' => place' = shift.position place := by
    rintro place _ ch following rfl
    exact shift.past_position place ch following
  have finds := @HostScanner.findsAlike_next scanner
    (fun place place' => place' = shift.position place)
    (shift.scanner scanner) steady ⟨rfl, rfl⟩ rfl
  generalize scanner.next.1 = found at finds ⊢
  generalize (shift.scanner scanner).next.1 = found' at finds ⊢
  cases finds with
  | ended => rfl
  | @found start start' alike =>
      obtain ⟨rest, place⟩ := start'
      obtain ⟨rfl, rfl⟩ := alike
      rfl
  | fault same =>
      subst same
      rfl

end Shift

section Results

variable {α β : Type} {shift : Shift} {budget budget' : Nat} {short short' : Prop} {f : α → α}
  {g : β → β}

/--
The result of the second run tracks that of the first one, where the first run had `budget` and the
second one `budget'`.
-/
inductive ResultTracks
    (shift : Shift)
    (budget budget' : Nat)
    (short : Prop)
    (f : α → α) :
    Except Fault α → Except Fault α → Prop
  | ok {value value' : α} :
      value' = f value →
      ResultTracks shift budget budget' short f (.ok value) (.ok value')
  | error {fault : Fault} :
      (budget ≠ budget' → ¬fault.IsExcess) →
      ResultTracks shift budget budget' short f (.error fault) (.error (shift.fault fault))
  | exceeded {fault : Fault} {other : Except Fault α} :
      short →
      budget < budget' →
      fault.Exceeds budget →
      ResultTracks shift budget budget' short f (.error fault) other

namespace ResultTracks

variable {result result' : Except Fault α} {fault : Fault}

/-- Where the first run fails, the second one fails alike unless the first used up its budget. -/
theorem of_error (tracks : ResultTracks shift budget budget' short f (.error fault) result') :
    result' = .error (shift.fault fault) ∧ (budget ≠ budget' → ¬fault.IsExcess) ∨
      short ∧ budget < budget' ∧ fault.Exceeds budget := by
  cases tracks with
  | error own => exact .inl ⟨rfl, own⟩
  | exceeded few less exceeds => exact .inr ⟨few, less, exceeds⟩

theorem mono
    (tracks : ResultTracks shift budget budget' short f result result')
    (implies : short → short') :
    ResultTracks shift budget budget' short' f result result' := by
  cases tracks with
  | ok value => exact .ok value
  | error own => exact .error own
  | exceeded few less exceeds => exact .exceeded (implies few) less exceeds

theorem map
    {k k' : α → β}
    (tracks : ResultTracks shift budget budget' short f result result')
    (commutes : ∀ value, k' (f value) = g (k value)) :
    ResultTracks shift budget budget' short g (result.map k) (result'.map k') := by
  cases tracks with
  | ok value =>
      subst value
      exact .ok (commutes _)
  | error own => exact .error own
  | exceeded few less exceeds => exact .exceeded few less exceeds

end ResultTracks

end Results

variable {shift : Shift} {budget : Nat} {modes : ModeStack} {scanner : HostScanner}

/-- Elements with host expressions in their holes track each other. -/
theorem tracks_readElement
    {start start' : Cursor}
    (proper : modes.frames ≠ [])
    (within : modes.budget ≤ budget)
    (aligned : start' = shift.cursor start) :
    Ending.Tracks shift budget (modes.levels < start.size) (Element.respan shift.span) modes
      (readElement hostDelegate modes start)
      (readElement hostDelegate (modes.withBudget budget) start') := by
  have delegates : DelegateBehind.Tracks shift budget (hostDelegate.behind start)
      (hostDelegate.behind start') :=
    fun modes inside inside' _ _ proper within aligned =>
      .weaken (@tracks_readExpression _ _ 0 modes (.fresh true inside) (.fresh true inside') proper
        within aligned).toOutcome
  exact tracks_readElementBehind delegates proper within aligned

namespace Document

/-- The elements ahead of scanners in front of the same characters track each other. -/
theorem tracks_elementsFrom
    (proper : modes.frames ≠ [])
    (within : modes.budget ≤ budget) :
    ResultTracks shift modes.budget budget (modes.levels < scanner.cursor.size)
      (List.map (Element.respan shift.span))
      (elementsFrom modes scanner)
      (elementsFrom (modes.withBudget budget) (shift.scanner scanner)) := by
  induction size : scanner.cursor.size using Nat.strongRecOn generalizing scanner with
  | ind size shorter =>
      subst size
      rw [elementsFrom_eq_match, elementsFrom_eq_match, shift.next_scanner]
      cases found : scanner.next.1 with
      | error fault => exact .error fun _ => Fault.not_isExcess_hostText _ _
      | ok start =>
          cases start with
          | none => exact .ok rfl
          | some start =>
              have reached : scanner.cursor ≤ start :=
                @HostScanner.le_of_next _ scanner.next.2 _ (Prod.ext found rfl)
              have fewer := Cursor.size_le_of_le reached
              have element := @tracks_readElement shift budget modes start (shift.cursor start)
                proper within rfl
              dsimp only [Shift.finding, Option.map]
              generalize readElement hostDelegate modes start = outcome at element ⊢
              generalize readElement hostDelegate (modes.withBudget budget) (shift.cursor start) =
                outcome' at element ⊢
              cases element with
              | @success element element' stop stop' passed _ same aligned =>
                  have passed := Nat.lt_of_lt_of_le (Cursor.size_lt_of_lt passed) fewer
                  subst same aligned
                  exact .map ((@shorter _ passed ⟨stop, false⟩ rfl).mono
                    fun few => Nat.lt_trans few passed) fun _ => rfl
              | failure own => exact .error own
              | exceeded few less exceeds => exact .exceeded (by omega) less exceeds

/-- Two documents of one text track each other. -/
theorem tracks_ofText (text : String) {budget budget' : Nat} (within : budget ≤ budget') :
    ResultTracks .zero budget budget' (budget < text.length)
      (fun document => ⟨document.elements.map (Element.respan Shift.zero.span)⟩)
      (ofText text budget) (ofText text budget') := by
  have elements := @tracks_elementsFrom .zero budget' (.initial budget) (.ofText text)
    (List.cons_ne_nil _ _) within
  exact .map elements fun _ => rfl

end Document

/-- Two readings of one text as an expression track each other. -/
theorem Expression.tracks_ofText
    (text : String)
    {budget budget' : Nat}
    (within : budget ≤ budget') :
    ResultTracks .zero budget budget' (budget ≤ text.length)
      (Expression.respan Shift.zero.span)
      (ofText text budget) (ofText text budget') := by
  have whole := @tracks_readExpression .zero budget' 0 (.initial budget)
    (.fresh true (.ofText text)) (.fresh true (.ofText text)) (List.cons_ne_nil _ _) within rfl
  rw [ModeStack.withBudget_initial] at whole
  unfold ofText
  generalize readExpression 0 (.initial budget) (.fresh true (.ofText text)) = outcome at whole ⊢
  generalize readExpression 0 (.initial budget') (.fresh true (.ofText text)) = outcome' at whole ⊢
  cases outcome with
  | success value after stream reached =>
      cases outcome' with
      | success value' after' stream' reached' =>
          cases whole with
          | success same aligned =>
              dsimp only
              rcases TokenStream.look_aligned aligned with
                ⟨view, view', looked, looked', token, -⟩ | ⟨fault, looked, looked'⟩
              · rw [looked, looked']
                have lexeme : view'.token.lexeme = view.token.lexeme := by
                  rw [token]
                  rfl
                dsimp only
                rw [lexeme]
                split
                · exact .ok same
                · rw [token]
                  exact .error fun _ => Fault.not_isExcess_grammar _ _
              · rw [looked, looked']
                exact .error fun _ => Fault.not_isExcess_lexical fault
      | failure => cases whole
  | failure =>
      cases outcome' with
      | success =>
          cases whole with
          | exceeded few less exceeds => exact .exceeded few less exceeds
      | failure =>
          cases whole with
          | failure own => exact .error own
          | exceeded few less exceeds => exact .exceeded few less exceeds

/-- A text of one element, behind which no markup is found, is a document of that element, up to
spans. -/
theorem Document.exists_ofText_withoutSpans
    {text : String}
    {tag rest : List Char}
    {element : Element Expression}
    (written : IsElement tag element)
    (ahead : text.toList = tag ++ rest)
    (nothing : (HostScanner.next ⟨(Cursor.ofText text).advanceBy tag.length, false⟩).1 = .ok none) :
    ∃ read level, read.withoutSpans = element.withoutSpans ∧
      ∀ budget, level ≤ budget → ofText text budget = .ok ⟨[read]⟩ := by
  obtain ⟨read, same, level, reads⟩ :=
    written (@Cursor.passes_advanceBy (.ofText text) _ _ ahead)
  refine ⟨read, level, same, fun budget enough => ?_⟩
  have unmoved : (Cursor.ofText text).skipBlanks = .ofText text := by
    apply Cursor.skipBlanks_eq_self
    intro ch next
    rw [opens_of_reads_element reads] at next
    cases next
    rfl
  have markup : startsMarkup (Cursor.ofText text).skipBlanks.rest = true := by
    rw [unmoved]
    exact startsMarkup_of_element ⟨level, reads⟩
  have found := HostScanner.next_found markup
  rw [unmoved] at found
  have yields := (reads.mono enough).yields_readElement (ModeStack.admits_initial budget)
  rw [ofText, HostScanner.ofText, elementsFrom_of_found found yields, elementsFrom_eq_nil nothing]
  rfl

/-- A text of one element, behind which no markup is found, is a document of one element. -/
theorem Document.exists_ofText_element
    {text : String}
    {tag rest : List Char}
    {element : Element Expression}
    (written : IsElement tag element)
    (ahead : text.toList = tag ++ rest)
    (nothing : (HostScanner.next ⟨(Cursor.ofText text).advanceBy tag.length, false⟩).1 = .ok none) :
    ∃ level, ∀ budget, level ≤ budget → ∃ read, ofText text budget = .ok ⟨[read]⟩ := by
  obtain ⟨read, level, -, document⟩ := exists_ofText_withoutSpans written ahead nothing
  exact ⟨level, fun budget enough => ⟨read, document budget enough⟩⟩

end EmbeddedMarkup
