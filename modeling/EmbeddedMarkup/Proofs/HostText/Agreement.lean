import EmbeddedMarkup.Document
import EmbeddedMarkup.Proofs.HostText.Scanning
import EmbeddedMarkup.Proofs.HostText.Steps
import EmbeddedMarkup.Proofs.Markup.Writing

/-!
# Documents of expressions

A document finds markup in host text without reading the host text as expressions.  Where the whole
text is an expression, it finds the outermost elements of the expression, unless the text is one of
those in which units of host text tell something else than tokens do.
-/

namespace EmbeddedMarkup

open Cursor

variable {budget : Nat} {text : String} {start c d first : Cursor} {lexeme : Lexeme} {trail : Trail}
  {element : Element Expression} {elements : List (Element Expression)}

namespace Document

variable {modes : ModeStack} {scanner other stopped : HostScanner}

/-- The elements ahead depend on where the scanner stops, not on how it came there. -/
theorem elementsFrom_eq_match (modes : ModeStack) (scanner : HostScanner) :
    elementsFrom modes scanner =
      match scanner.next.1 with
      | .error fault => .error (fault.map .hostText)
      | .ok none => .ok []
      | .ok (some start) =>
          match readElement hostDelegate modes start with
          | .failure fault _ => .error fault
          | .success element modes stop _ =>
              (elementsFrom modes ⟨stop, false⟩).map (element :: ·) := by
  rw [elementsFrom]
  split <;> rename_i found <;> rw [found]
  rfl

theorem elementsFrom_congr (same : scanner.next = other.next) :
    elementsFrom modes scanner = elementsFrom modes other := by
  rw [elementsFrom_eq_match, elementsFrom_eq_match, same]

/-- Where nothing is found, no elements are ahead. -/
theorem elementsFrom_eq_nil (none : scanner.next.1 = .ok none) :
    elementsFrom modes scanner = .ok [] := by
  rw [elementsFrom_eq_match, none]

/-- Markup that is found is read, and the scanner goes on behind it. -/
theorem elementsFrom_of_found
    (found : scanner.next = (.ok (some first), stopped))
    (read : (readElement hostDelegate modes first).Yields element modes d) :
    elementsFrom modes scanner = (elementsFrom modes ⟨d, false⟩).map (element :: ·) := by
  obtain ⟨passed, read⟩ := read
  rw [elementsFrom_eq_match, found]
  dsimp only
  rw [read]

/-- Either nothing is found, or markup is found and read and the other elements stand behind it. -/
theorem elementsFrom_cases
    (read : elementsFrom (.initial budget) scanner = .ok elements) :
    (elements = [] ∧ scanner.next.1 = .ok none) ∨
      ∃ first stopped element behind more,
        elements = element :: more ∧
          scanner.next = (.ok (some first), stopped) ∧
          first < behind ∧
          Reads budget (.element element) first behind ∧
          elementsFrom (.initial budget) ⟨behind, false⟩ = .ok more := by
  rw [elementsFrom_eq_match] at read
  split at read
  · cases read
  · rename_i found
    cases read
    exact .inl ⟨rfl, found⟩
  · rename_i first found
    split at read
    · cases read
    · rename_i element modes behind passed success
      obtain ⟨rfl, reads⟩ := reads_of_readElement (by simp [ModeStack.initial]) ⟨passed, success⟩
      cases rest : elementsFrom (.initial budget) ⟨behind, false⟩ with
      | error =>
          rw [rest] at read
          cases read
      | ok more =>
          rw [rest] at read
          cases read
          exact .inr ⟨first, scanner.next.2, element, behind, more, rfl, Prod.ext found rfl,
            passed, reads, rest⟩

/-- Elements that are ahead start where the scanner finds markup. -/
theorem found_of_elementsFrom
    (read : elementsFrom (.initial budget) scanner = .ok elements) :
    (elements = [] ∧ scanner.next.1 = .ok none) ∨
      ∃ first stopped element more,
        elements = element :: more ∧
          scanner.next = (.ok (some first), stopped) ∧
          element.span.start = first.position.offset := by
  rcases elementsFrom_cases read with ended | ⟨first, stopped, element, _, more, same, found, _,
    reads, _⟩
  · exact .inl ended
  · refine .inr ⟨first, stopped, element, more, same, found, ?_⟩
    rw [(span_of_reads_element reads).2]
    rfl

/-- Every element that is ahead is read within the whole budget. -/
theorem reads_of_mem_elementsFrom
    (read : elementsFrom (.initial budget) scanner = .ok elements)
    (member : element ∈ elements) :
    ∃ first behind, Reads budget (.element element) first behind := by
  induction elements generalizing scanner with
  | nil => cases member
  | cons _ _ ih =>
      rcases elementsFrom_cases read with ⟨none, -⟩ | ⟨first, _, found, behind, more, same, _, _,
        reads, later⟩
      · cases none
      · obtain ⟨rfl, rfl⟩ := List.cons.inj same
        rcases List.mem_cons.mp member with rfl | member
        · exact ⟨first, behind, reads⟩
        · exact ih later member

variable {document : Document}

/-- A document holds the elements that are ahead of the start of its text. -/
theorem ofText_eq_ok_iff :
    ofText text budget = .ok document ↔
      elementsFrom (.initial budget) (.ofText text) = .ok document.elements := by
  unfold ofText
  cases elementsFrom (.initial budget) (.ofText text) with
  | error => exact iff_of_false nofun nofun
  | ok elements =>
      constructor
      · rintro ⟨⟩
        rfl
      · intro same
        cases same
        rfl

/-- A text is no document because of the fault that its elements have. -/
theorem ofText_eq_error_iff {fault : Fault} :
    ofText text budget = .error fault ↔
      elementsFrom (.initial budget) (.ofText text) = .error fault := by
  unfold ofText
  cases elementsFrom (.initial budget) (.ofText text) with
  | error => rw [Except.map, Except.error.injEq, Except.error.injEq]
  | ok => exact iff_of_false nofun nofun

/-- Every element of a document is read within the whole budget. -/
theorem reads_of_mem_ofText
    (read : ofText text budget = .ok document)
    (member : element ∈ document.elements) :
    ∃ first behind, Reads budget (.element element) first behind :=
  reads_of_mem_elementsFrom (ofText_eq_ok_iff.mp read) member

end Document

/-- Adding elements in front of others can be done in steps. -/
theorem map_append_cons
    {ε : Type}
    (outcome : Except ε (List (Element Expression))) :
    (outcome.map (element :: ·)).map (elements ++ ·) =
      outcome.map (elements ++ [element] ++ ·) := by
  cases outcome with
  | error => rfl
  | ok others => simp [Except.map]

/-! ## Steps of a scanner -/

namespace HostPlace

variable {place other last : HostPlace}

theorem not_certain_iff :
    ¬place.Certain ↔
      place.trail.doubtful = true ∧ ∃ first, skipTrivia place.cursor = ⟨.ok (), first⟩ ∧
        startsMarkup first.rest = true := by
  simp [Certain]

/-- Behind a place that is certain, an expression may start where markup may. -/
theorem Certain.expressionStart
    (certain : place.Certain)
    (skipped : skipTrivia place.cursor = ⟨.ok (), first⟩)
    (markup : startsMarkup first.rest = true)
    (allowed : place.trail.expected.allowsMarkup = true) :
    place.trail.expressionStart = true := by
  have sure : place.trail.doubtful ≠ true := by
    intro doubt
    rw [certain doubt first skipped] at markup
    cases markup
  revert sure allowed
  cases place.trail <;> decide

/-- A reader goes on where units tell as much as tokens do. -/
def CertainStep (level : Nat) (place other : HostPlace) : Prop :=
  place.Certain ∧ place.Step level other

/-- A reader comes from one place to another over places that are certain. -/
abbrev ReachesCertainly (level : Nat) : HostPlace → HostPlace → Prop :=
  Relation.ReflTransGen (CertainStep level)

theorem reaches_of_certainly (reaches : place.ReachesCertainly budget last) :
    place.Reaches budget last :=
  Relation.ReflTransGen.mono (fun _ _ step => step.2) _ _ reaches

/-- On the way to a place, all places are certain or one is the first that is not. -/
theorem certainly_or_exists_first (reaches : place.Reaches budget last) :
    place.ReachesCertainly budget last ∨
      ∃ other, place.ReachesCertainly budget other ∧ ¬other.Certain := by
  induction reaches with
  | refl => exact .inl .refl
  | @tail other _ _ step ih =>
      rcases ih with certain | first
      · by_cases sure : other.Certain
        · exact .inl (certain.tail ⟨sure, step⟩)
        · exact .inr ⟨other, certain, sure⟩
      · exact .inr first

/--
What a document finds in a text is what the reader goes over up to a place, and then what the
scanner finds from there.
-/
theorem elementsFrom_of_certain
    (reaches : (HostPlace.start (.ofText text)).ReachesCertainly budget place)
    (keeps : StaysHostCode budget text)
    (goesOn : GoesOn place.trail.expected place.cursor) :
    Document.elementsFrom (.initial budget) (.ofText text) =
      (Document.elementsFrom (.initial budget) (place.trail.scanner place.cursor)).map
        (place.elements ++ ·) := by
  induction reaches with
  | refl => exact (congrFun Except.map_id _).symm
  | tail way step ih =>
      obtain ⟨certain, step⟩ := step
      have keeps := keeps _ (reaches_of_certainly way)
      cases step with
      | token skipped next admitted =>
          dsimp only at goesOn
          rw [Trail.expected_behind] at goesOn
          have scanned := next_behind skipped keeps next admitted
            (fun doubt => certain doubt _ skipped) goesOn
          rw [ih (.token next admitted), Document.elementsFrom_congr scanned]
      | markup skipped allowed markup reads =>
          have start := certain.expressionStart skipped markup allowed
          have found := next_tag skipped keeps start markup
          have read := reads.yields_readElement (ModeStack.admits_initial budget)
          rw [ih (.markup skipped allowed markup), Document.elementsFrom_of_found found read,
            map_append_cons]
          rfl

/-- A reader goes on from a place in front of something like a tag. -/
theorem goesOn_of_not_certain (unsure : ¬place.Certain) :
    GoesOn place.trail.expected place.cursor := by
  obtain ⟨doubt, first, skipped, markup⟩ := not_certain_iff.mp unsure
  cases allowed : place.trail.expected.allowsMarkup with
  | true => exact .markup skipped allowed markup
  | false =>
      obtain ⟨lexeme, behind, next, isLess, -⟩ := nextLexeme_of_startsMarkup skipped markup
      refine .token next ?_
      revert doubt allowed
      rcases isLess with rfl | rfl <;> cases place.trail <;> decide

/-- A scanner that stops in front of a tag finds no elements that all start behind it. -/
theorem elementsFrom_ne_of_start
    {later : List (Element Expression)}
    (skipped : skipTrivia c = ⟨.ok (), first⟩)
    (keeps : KeepsHostCode c)
    (start : trail.expressionStart = true)
    (markup : startsMarkup first.rest = true)
    (behind : ∀ element ∈ later, first.position.offset < element.span.start) :
    Document.elementsFrom (.initial budget) (trail.scanner c) ≠ .ok later := by
  intro read
  have stops := next_tag skipped keeps start markup
  rcases Document.found_of_elementsFrom read with
    ⟨-, none⟩ | ⟨found, stopped, element, more, rfl, scanned, span⟩
  · rw [stops] at none
    cases none
  · rw [stops] at scanned
    cases scanned
    exact absurd span (Nat.ne_of_gt (behind element (List.mem_cons_self ..)))

/-- A scanner that passes over a bracket does not find an element that starts with it. -/
theorem elementsFrom_ne_of_bracket
    {later : List (Element Expression)}
    (skipped : skipTrivia c = ⟨.ok (), first⟩)
    (keeps : KeepsHostCode c)
    (start : trail.expressionStart = false)
    (markup : startsMarkup first.rest = true)
    (starts : element.span.start = first.position.offset) :
    Document.elementsFrom (.initial budget) (trail.scanner c) ≠ .ok (element :: later) := by
  intro read
  rcases Document.found_of_elementsFrom read with
    ⟨none, -⟩ | ⟨found, stopped, element, more, same, scanned, span⟩
  · cases none
  · cases same
    rw [next_bracket skipped keeps start markup] at scanned
    have bracket : first < first.advance := by
      obtain ⟨rest, ahead⟩ := exists_rest_of_startsMarkup markup
      exact lt_advance (peek?_eq_some_iff.mpr ⟨rest, ahead⟩)
    have passed :=
      offset_lt_of_lt (Cursor.lt_of_lt_of_le bracket (HostScanner.le_of_next scanned))
    rw [starts] at span
    exact absurd span (Nat.ne_of_lt passed)

/--
At a place where units tell something else than tokens do, a document does not find what the reader
goes over from there: the scanner stops in front of a comparison, or passes the bracket of an
element.
-/
theorem elementsFrom_ne_of_not_certain
    {later : List (Element Expression)}
    (unsure : ¬place.Certain)
    (keeps : KeepsHostCode place.cursor)
    (onwards : place.Reaches budget last)
    (ended : NextLexeme last.cursor .endOfInput d)
    (same : last.elements = place.elements ++ later) :
    Document.elementsFrom (.initial budget) (place.trail.scanner place.cursor) ≠ .ok later := by
  obtain ⟨doubt, first, skipped, markup⟩ := not_certain_iff.mp unsure
  have opinion : place.trail.expressionStart = !place.trail.expected.allowsMarkup := by
    revert doubt
    cases place.trail <;> decide
  rcases onwards.cases_head with rfl | ⟨other, step, onwards⟩
  · rw [startsMarkup_eq_false skipped ended (by decide)] at markup
    cases markup
  · obtain ⟨-, others, split, behind⟩ := exists_later_of_reaches onwards
    rw [same] at split
    cases step with
    | @token elements trail lexeme c first' d' skipped' next admitted =>
        have start : trail.expressionStart = true := by
          cases allowed : trail.expected.allowsMarkup with
          | false => simpa [allowed] using opinion
          | true =>
              rw [not_admits_of_startsMarkup skipped allowed markup next] at admitted
              cases admitted
        have goesOn : lexeme ≠ .endOfInput := by
          rintro rfl
          revert admitted
          cases trail <;> decide
        obtain rfl := List.append_cancel_left split
        have passed := offset_lt_of_lt (lt_of_skipTrivia next skipped goesOn)
        exact elementsFrom_ne_of_start skipped keeps start markup
          fun element member => Nat.lt_of_lt_of_le passed (behind element member)
    | @markup elements element trail c first' d' skipped' allowed markup' reads =>
        rw [skipped] at skipped'
        cases skipped'
        rw [List.append_assoc, List.singleton_append] at split
        obtain rfl := List.append_cancel_left split
        have start : trail.expressionStart = false := by simpa [allowed] using opinion
        exact elementsFrom_ne_of_bracket skipped keeps start markup
          (congrArg Span.start (span_of_reads_element reads).2)

end HostPlace

/--
Where a text is an expression and units of host text tell as much about it as tokens do, its
document holds the outermost elements of the expression, in the order of the text.
-/
theorem documentOfText_of_expressionOfText
    {whole : Expression}
    (read : Expression.ofText text budget = .ok whole)
    (readable : HostReadable budget text) :
    Document.ofText text budget = .ok ⟨whole.outermost⟩ ∧
      InOrder (whole.outermost.map Element.span) := by
  obtain ⟨stop, behind, ⟨trail, reached, expected⟩, ended⟩ := comesTo_of_ofText read
  have certainly := (HostPlace.certainly_or_exists_first reached).resolve_right
    fun ⟨other, way, unsure⟩ => unsure (readable.2 other (HostPlace.reaches_of_certainly way))
  have elements := HostPlace.elementsFrom_of_certain certainly readable.1 (.ended ended)
  dsimp only at elements
  rw [Document.elementsFrom_eq_nil (next_end ended (readable.1 _ reached))] at elements
  refine ⟨?_, (HostPlace.inOrder_of_reaches reached).1⟩
  rw [Document.ofText, elements]
  simp [Except.map]

/-- The text of an element without attributes and content. -/
theorem isElement_emptyTag : IsElement "<b />".toList ⟨"b", [], [], none, default⟩ :=
  (@Writes.selfClosing ['b'] [] _ _ default blank_nil (.segment ⟨rfl, by decide⟩)
    (@Writes.selfClosingEnd [' '] blank_space)).isReadAs

/-- A comparison with an element tells as much in units as in tokens. -/
theorem hostReadable_comparison
    (reads : Reads budget (.element element) ((Cursor.ofText "$x < <b />").advanceBy 5)
      ((Cursor.ofText "$x < <b />").advanceBy 10)) :
    HostReadable budget "$x < <b />" := by
  have places (place : HostPlace)
      (reached : (HostPlace.start (.ofText "$x < <b />")).Reaches budget place) :
      place.trail.doubtful = false ∧
        CommentReading.ofChars place.cursor.skipBlanks.rest = .absent := by
    have operand : HostPlace.Step budget (HostPlace.start (.ofText "$x < <b />"))
        ⟨[], .operand, (Cursor.ofText "$x < <b />").advanceBy 2⟩ :=
      @HostPlace.step_of_read _ _ (.variable "x") .connective [] 2 rfl rfl rfl
    rcases HostPlace.eq_or_reaches operand reached with rfl | reached
    · exact ⟨rfl, rfl⟩
    have less : HostPlace.Step budget
        ⟨[], .operand, (Cursor.ofText "$x < <b />").advanceBy 2⟩
        ⟨[], .connective, (Cursor.ofText "$x < <b />").advanceBy 4⟩ :=
      @HostPlace.step_of_read _ _ (.symbol .less) .operand [] 1 rfl rfl rfl
    rcases HostPlace.eq_or_reaches less reached with rfl | reached
    · exact ⟨rfl, rfl⟩
    have markup : HostPlace.Step budget
        ⟨[], .connective, (Cursor.ofText "$x < <b />").advanceBy 4⟩
        ⟨[element], .operand, (Cursor.ofText "$x < <b />").advanceBy 10⟩ :=
      .markup (skipTrivia_eq_skipBlanks rfl) rfl rfl reads
    rcases HostPlace.eq_or_reaches markup reached with rfl | reached
    · exact ⟨rfl, rfl⟩
    have ended : NextLexeme ((Cursor.ofText "$x < <b />").advanceBy 10) .endOfInput _ :=
      nextLexeme_of_skipTrivia (skipTrivia_eq_skipBlanks rfl) rfl
    rw [HostPlace.eq_of_reaches_of_ended ended reached]
    exact ⟨rfl, rfl⟩
  refine ⟨fun place reached => .plain (places place reached).2, fun place reached doubt => ?_⟩
  rw [(places place reached).1] at doubt
  cases doubt

/-- The document of a comparison with an element holds the element. -/
theorem documentOfText_comparison :
    ∃ budget whole,
      Expression.ofText "$x < <b />" budget = .ok whole ∧
        HostReadable budget "$x < <b />" ∧
        whole.outermost.length = 1 ∧
        Document.ofText "$x < <b />" budget = .ok ⟨whole.outermost⟩ ∧
        InOrder (whole.outermost.map Element.span) := by
  have operand : IsOperand "$x".toList ⟨.variable "x", default⟩ :=
    (spells_variable ⟨rfl, by decide⟩).isOperand rfl
  have leads : Leads 0 0 "$x < <b />".toList
      ⟨.binary .smaller ⟨.variable "x", default⟩ ⟨.markup ⟨"b", [], [], none, default⟩, default⟩,
        default⟩ :=
    operand.leads.binary (spells_symbol .less) rfl (Nat.zero_le _) (by decide)
      ((isOperand_markup isElement_emptyTag).leads.mono (Nat.zero_le _)) (Nat.zero_le _)
  obtain ⟨whole, least, same, read⟩ := leads.ofText_eq_ok
  have outermost := congrArg List.length (congrArg Expression.outermost same)
  rw [Expression.outermost_withoutSpans, Expression.outermost_withoutSpans] at outermost
  obtain ⟨element, -, level, reads⟩ := isElement_emptyTag
    (@passes_advanceBy ((Cursor.ofText "$x < <b />").advanceBy 5) _ [] rfl)
  have readable := hostReadable_comparison (reads.mono (Nat.le_max_right least level))
  have read := read (max least level) (Nat.le_max_left least level)
  have agrees := documentOfText_of_expressionOfText read readable
  refine ⟨_, whole, read, readable, ?_, agrees⟩
  simpa [Expression.outermost, ExpressionForm.outermost] using outermost

/--
The document of a text that is an expression, and in which host code does not end in a comment,
holds the outermost elements of the expression only if units of host text tell as much as tokens do.
-/
theorem hostReadable_of_documentOfText
    {whole : Expression}
    (read : Expression.ofText text budget = .ok whole)
    (keeps : StaysHostCode budget text)
    (agrees : Document.ofText text budget = .ok ⟨whole.outermost⟩) :
    HostReadable budget text := by
  refine ⟨keeps, fun place reached => Classical.byContradiction fun unsure => ?_⟩
  obtain ⟨place, certainly, unsure⟩ :
      ∃ place, (HostPlace.start (.ofText text)).ReachesCertainly budget place ∧ ¬place.Certain := by
    rcases HostPlace.certainly_or_exists_first reached with certainly | first
    · exact ⟨place, certainly, unsure⟩
    · exact first
  obtain ⟨stop, behind, ⟨trail, whole, -⟩, ended⟩ := comesTo_of_ofText read
  have reached := HostPlace.reaches_of_certainly certainly
  have onwards := HostPlace.onwards_of_reaches whole ended reached
  obtain ⟨-, later, same, -⟩ := HostPlace.exists_later_of_reaches onwards
  have found := HostPlace.elementsFrom_of_certain certainly keeps
    (HostPlace.goesOn_of_not_certain unsure)
  refine HostPlace.elementsFrom_ne_of_not_certain unsure (keeps _ reached) onwards ended same ?_
  rw [Document.ofText, found] at agrees
  cases rest : Document.elementsFrom (.initial budget) (place.trail.scanner place.cursor) with
  | error =>
      rw [rest] at agrees
      cases agrees
  | ok others =>
      rw [rest] at agrees
      dsimp only at same
      simp only [Except.map, Except.ok.injEq, Document.mk.injEq, same,
        List.append_cancel_left_eq] at agrees
      rw [agrees]

/-- An operand in parentheses that looks like a cast hides a comparison from a document. -/
theorem documentOfText_ne_behind_cast :
    ¬∀ (text : String) (budget : Nat) (whole : Expression),
      Expression.ofText text budget = .ok whole →
      Document.ofText text budget = .ok ⟨whole.outermost⟩ := by
  intro agrees
  have type : IsOperand "int".toList ⟨.constant "int", default⟩ :=
    Spells.isOperand_name (spells_word ⟨rfl, by decide⟩)
  have name : IsOperand "b".toList ⟨.constant "b", default⟩ :=
    Spells.isOperand_name (spells_word ⟨rfl, by decide⟩)
  have operand := (type.leads.mono (Nat.zero_le _)).parenthesized rfl
  have leads : Leads 0 0 "( int ) < b".toList
      ⟨.binary .smaller ⟨.constant "int", default⟩ ⟨.constant "b", default⟩, default⟩ :=
    operand.leads.binary (spells_symbol .less) rfl (Nat.zero_le _) (by decide)
      (name.leads.mono (Nat.zero_le _)) (Nat.zero_le _)
  obtain ⟨whole, budget, same, read⟩ := leads.ofText_eq_ok
  have plain : whole.outermost = [] := by
    have outermost := congrArg Expression.outermost same
    rw [Expression.outermost_withoutSpans, Expression.outermost_withoutSpans] at outermost
    simpa [Expression.outermost, ExpressionForm.outermost] using outermost
  have document := agrees _ budget whole (read budget (Nat.le_refl _))
  have found : (HostScanner.ofText "( int ) < b").next =
      (.ok (some ((Cursor.ofText "( int ) < b").advanceBy 8)),
        ⟨(Cursor.ofText "( int ) < b").advanceBy 8, true⟩) := by
    rw [HostScanner.ofText, HostScanner.next_cast rfl rfl]
    exact HostScanner.next_found rfl
  rw [plain, Document.ofText, String.ofList_toList] at document
  cases elements : Document.elementsFrom (.initial budget) (.ofText "( int ) < b") with
  | error fault =>
      rw [elements] at document
      cases document
  | ok others =>
      rw [elements] at document
      cases document
      rcases Document.found_of_elementsFrom elements with ⟨-, none⟩ | ⟨_, _, _, _, some, -⟩
      · rw [found] at none
        cases none
      · cases some

/-- Inline text behind a line comment hides an element from a document. -/
theorem documentOfText_ne_behind_comment :
    ¬∀ (text : String) (budget : Nat) (whole : Expression),
      Expression.ofText text budget = .ok whole →
      (∀ place, (HostPlace.start (.ofText text)).Reaches budget place → place.Certain) →
      Document.ofText text budget = .ok ⟨whole.outermost⟩ := by
  intro agrees
  have skipped : skipTrivia (.ofText "// ?>\n<b />") =
      ⟨.ok (), (Cursor.ofText "// ?>\n<b />").advanceBy 6⟩ := by
    have comment : CommentReading.ofChars (Cursor.ofText "// ?>\n<b />").skipBlanks.rest =
        .comment 5 := rfl
    rw [skipTrivia_comment comment]
    exact skipTrivia_eq_skipBlanks rfl
  obtain ⟨element, -, level, reads⟩ := isElement_emptyTag
    (@passes_advanceBy ((Cursor.ofText "// ?>\n<b />").advanceBy 6) _ [] rfl)
  have ended : NextLexeme ((Cursor.ofText "// ?>\n<b />").advanceBy 11) .endOfInput _ :=
    nextLexeme_of_skipTrivia (skipTrivia_eq_skipBlanks rfl) rfl
  have reads' := reads.mono (Nat.le_succ level)
  have certain (place : HostPlace)
      (reached : (HostPlace.start (.ofText "// ?>\n<b />")).Reaches (level + 1) place) :
      place.Certain := by
    have markup : HostPlace.Step (level + 1) (HostPlace.start (.ofText "// ?>\n<b />"))
        ⟨[element], .operand, (Cursor.ofText "// ?>\n<b />").advanceBy 11⟩ :=
      .markup skipped rfl rfl reads'
    rcases HostPlace.eq_or_reaches markup reached with rfl | reached
    · exact fun doubt => nomatch doubt
    rw [HostPlace.eq_of_reaches_of_ended ended reached]
    exact fun doubt => nomatch doubt
  have whole : Reads (level + 1) (.expression 0 ⟨.markup element, _⟩) (.ofText "// ?>\n<b />")
      ((Cursor.ofText "// ?>\n<b />").advanceBy 11) :=
    .expression skipped (.markup skipped rfl reads) (.stop ended fun _ none => nomatch none)
  have document := agrees _ (level + 1) _ (whole.ofText_eq_ok ended (Nat.le_refl _)) certain
  have nothing : (HostScanner.ofText "// ?>\n<b />").next.1 = .ok none := by
    have comment : (HostScanner.ofText "// ?>\n<b />").next =
        HostScanner.next ⟨(Cursor.ofText "// ?>\n<b />").advanceBy 3, true⟩ :=
      HostScanner.next_pass rfl rfl rfl
    have inline : HostScanner.next ⟨(Cursor.ofText "// ?>\n<b />").advanceBy 3, true⟩ =
        HostScanner.next ⟨(Cursor.ofText "// ?>\n<b />").advanceBy 11, true⟩ :=
      HostScanner.next_pass rfl rfl rfl
    rw [comment, inline, HostScanner.next]
    rfl
  rw [Document.ofText, Document.elementsFrom_eq_nil nothing] at document
  cases document

end EmbeddedMarkup
