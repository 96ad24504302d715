import EmbeddedMarkup.Proofs.Expression.Stages
import EmbeddedMarkup.Proofs.HostText.Tracking

/-!
# Where whole sources are left open

A scanner arrives at the units of host text and at the markup in it, so every fault of a whole
source is accounted for.  Its line and its column are those of a boundary between two characters of
the source, and if its message tells of something without its end, that boundary is the place where
it was opened.
-/

namespace EmbeddedMarkup

open Cursor

variable {first : Stage} {origin c d : Cursor}

/-! ## Host text -/

/-- The characters `cs` bear out what was found ahead, where an expression may start or not. -/
def HostAhead.Fits (start : Bool) (cs : List Char) : HostAhead → Prop
  | .markup => start = true ∧ startsMarkup cs = true
  | .pass _ => True
  | .unterminated cause => cause.LeavesOpen cs

namespace HostAhead.Fits

variable {start : Bool} {cs : List Char}

theorem ite
    {condition : Prop}
    [Decidable condition]
    {ahead other : HostAhead}
    (yes : condition → ahead.Fits start cs)
    (no : ¬condition → other.Fits start cs) :
    (if condition then ahead else other).Fits start cs := by
  split
  · exact yes ‹_›
  · exact no ‹_›

theorem heredocAhead {body : List Char} :
    (EmbeddedMarkup.heredocAhead body).Fits start ("<<<".toList ++ body) := by
  cases ahead : EmbeddedMarkup.heredocAhead body with
  | markup =>
      unfold EmbeddedMarkup.heredocAhead at ahead
      dsimp only at ahead
      split at ahead
      · cases ahead
      · split at ahead <;> cases ahead
  | pass => trivial
  | unterminated => exact leavesOpen_of_heredocAhead ahead

theorem commentAhead {body : List Char} :
    (EmbeddedMarkup.commentAhead start body).Fits start ("/*".toList ++ body) := by
  unfold EmbeddedMarkup.commentAhead
  split
  · trivial
  · rename_i unended
    exact leavesCommentOpen_of_blockCommentTail? unended

theorem stringAhead
    {quote : Char}
    {body : List Char}
    (isQuote : quote = '\'' ∨ quote = '"' ∨ quote = '\x60') :
    (EmbeddedMarkup.stringAhead quote body).Fits start (quote :: body) := by
  unfold EmbeddedMarkup.stringAhead
  split
  · trivial
  · rename_i unended
    exact leavesStringOpen_of_quotedTail? isQuote unended

end HostAhead.Fits

/-- Host text is markup only where markup may start, and left open only where its opening is. -/
theorem fits_hostAhead (start : Bool) (first : Char) (rest : List Char) :
    (hostAhead start first rest).Fits start (first :: rest) := by
  unfold hostAhead
  refine .ite (fun _ => trivial) fun _ => .ite (fun _ => trivial) fun _ => ?_
  refine .ite (fun heredoc => ?_) fun _ => ?_
  · obtain ⟨body, same⟩ := List.isPrefixOf_iff_prefix.mp heredoc
    cases same
    exact .heredocAhead
  refine .ite (fun markup => Bool.and_eq_true_iff.mp markup) fun _ => ?_
  refine .ite (fun _ => trivial) fun _ => .ite (fun _ => trivial) fun _ => ?_
  refine .ite (fun comment => ?_) fun _ => ?_
  · obtain ⟨body, same⟩ := List.isPrefixOf_iff_prefix.mp comment
    cases same
    exact .commentAhead
  refine .ite (fun quote => .stringAhead ?_) fun _ => ?_
  · simpa [or_assoc] using quote
  refine .ite (fun _ => trivial) fun _ => .ite (fun _ => trivial) fun _ => ?_
  refine .ite (fun _ => trivial) fun _ => .ite (fun _ => trivial) fun _ => ?_
  refine .ite (fun _ => trivial) fun _ => ?_
  split <;> trivial

theorem visible_of_rest_skipBlanks
    {ch : Char}
    {rest : List Char}
    (ahead : c.skipBlanks.rest = ch :: rest) :
    isBlank ch = false :=
  fails_of_peek?_skipWhile (peek?_eq_some_iff.mpr ⟨rest, ahead⟩)

namespace HostScanner

variable {scanner : HostScanner}

/-- A scanner stops where markup starts. -/
theorem startsMarkup_of_next {start : Cursor} (found : scanner.next.1 = .ok (some start)) :
    startsMarkup start.rest = true := by
  fun_induction next scanner with
  | case1 => cases found
  | case2 scanner here first rest ahead markup =>
      obtain rfl : here = start := Option.some.inj (Except.ok.inj found)
      have fits := fits_hostAhead scanner.expressionStart first rest
      rw [markup, ← ahead] at fits
      exact fits.2
  | case3 scanner here first rest ahead unit pass ih => exact ih found
  | case4 => cases found

/-- A scanner arrives at the markup that it finds. -/
theorem arrives_of_next
    {start : Cursor}
    (arrives : Arrives first origin (.hostText scanner.expressionStart) scanner.cursor)
    (found : scanner.next.1 = .ok (some start)) :
    Arrives first origin (.hostText true) start := by
  fun_induction next scanner with
  | case1 => cases found
  | case2 scanner here ch rest ahead markup =>
      obtain rfl : here = start := Option.some.inj (Except.ok.inj found)
      have fits := fits_hostAhead scanner.expressionStart ch rest
      rw [markup] at fits
      rw [fits.1] at arrives
      exact .blanks arrives
  | case3 scanner here ch rest ahead unit pass ih =>
      exact ih (.unit (.blanks arrives) ahead (visible_of_rest_skipBlanks ahead) pass) found
  | case4 => cases found

/-- What a scanner cannot pass over is left open where it has arrived. -/
theorem isAccountedFor_of_next
    {fault : HostTextFault}
    (arrives : Arrives first origin (.hostText scanner.expressionStart) scanner.cursor)
    (failed : scanner.next.1 = .error fault) :
    Fault.IsAccountedFor first origin (fault.map .hostText) := by
  fun_induction next scanner with
  | case1 => cases failed
  | case2 => cases failed
  | case3 scanner here ch rest ahead unit pass ih =>
      exact ih (.unit (.blanks arrives) ahead (visible_of_rest_skipBlanks ahead) pass) failed
  | case4 scanner here ch rest ahead cause unterminated =>
      cases failed
      have fits := fits_hostAhead scanner.expressionStart ch rest
      rw [unterminated, ← ahead] at fits
      have here := Arrives.blanks arrives
      exact ⟨_, here.le, rfl, HostTextCause.LeavesOpen.opens fits, ⟨_, here⟩, fits⟩

end HostScanner

/-! ## Whole sources -/

/-- A scanner that has arrived goes on behind an element, so all faults are accounted for. -/
theorem Document.isAccountedFor_of_elementsFrom
    {modes : ModeStack}
    {scanner : HostScanner}
    {fault : Fault}
    (whole : first.IsWhole)
    (proper : modes.frames ≠ [])
    (arrives : Arrives first origin (.hostText scanner.expressionStart) scanner.cursor)
    (failed : elementsFrom modes scanner = .error fault) :
    fault.IsAccountedFor first origin := by
  fun_induction elementsFrom modes scanner with
  | case1 modes scanner hostFault stopped found =>
      cases failed
      exact HostScanner.isAccountedFor_of_next arrives (congrArg Prod.fst found)
  | case2 => cases failed
  | case3 modes scanner start stopped found other after failure =>
      cases failed
      have found := congrArg Prod.fst found
      have started := HostScanner.arrives_of_next arrives found
      exact accountsFor_readElement whole
        (.markup started (HostScanner.startsMarkup_of_next found)) fault after failure
  | case4 modes scanner start stopped found element after stop passed success ih =>
      have started := HostScanner.arrives_of_next arrives (congrArg Prod.fst found)
      obtain ⟨rfl, reads⟩ := reads_of_readElement proper ⟨passed, success⟩
      refine ih proper (.behindMarkup started reads) ?_
      cases others : elementsFrom _ (stopped.resume stop) with
      | error other =>
          rw [others] at failed
          exact failed
      | ok elements =>
          rw [others] at failed
          cases failed

/-- The faults of a document are accounted for. -/
theorem Document.isAccountedFor_of_ofText
    {text : String}
    {budget : Nat}
    {fault : Fault}
    (failed : ofText text budget = .error fault) :
    fault.IsAccountedFor (.hostText true) (.ofText text) :=
  isAccountedFor_of_elementsFrom trivial (List.cons_ne_nil _ _) .start
    (ofText_eq_error_iff.mp failed)

/-- The faults of an expression that is read alone are accounted for. -/
theorem Expression.isAccountedFor_of_ofText
    {text : String}
    {budget : Nat}
    {fault : Fault}
    (failed : ofText text budget = .error fault) :
    fault.IsAccountedFor .expression (.ofText text) :=
  have whole : Stage.expression.IsWhole := trivial
  @fault_of_ofText _ (Conditions.passExpressions_accounting whole) text budget fault
    (List.cons_ne_nil _ _) (Conditions.place_of_arrives .start) failed

/-! ## Messages -/

/-- What a message tells to be without its end. -/
inductive Unended where
  | element (name : String)
  | string
  | comment
  | heredoc
  | value
  | markupComment

/-- Reading arrives in host code, in front of a unit or of a token. -/
def FacesCode (first : Stage) (origin c : Cursor) : Prop :=
  (∃ expressionStart, Arrives first origin (.hostText expressionStart) c) ∨
    FacesToken first origin c

namespace Unended

/-- The message that tells it. -/
def message : Unended → String
  | .element name => "Unterminated JSX element '<" ++ name ++ ">'"
  | .string => "Unterminated string"
  | .comment => "Unterminated comment"
  | .heredoc => "Unterminated heredoc"
  | .value => "Unterminated attribute string"
  | .markupComment => "Unterminated JSX comment"

/-- It is opened at this cursor, where reading arrived, and does not end. -/
def IsOpenAt (first : Stage) (origin c : Cursor) : Unended → Prop
  | .element name =>
      LeavesElementOpen first origin c name ∨ LeavesClosingTagOpen first origin c name
  | .string => FacesCode first origin c ∧ LeavesStringOpen c.rest
  | .comment => FacesCode first origin c ∧ LeavesCommentOpen c.rest
  | .heredoc =>
      (∃ expressionStart, Arrives first origin (.hostText expressionStart) c) ∧
        LeavesHeredocOpen c.rest
  | .value => Arrives first origin .value c ∧ LeavesValueOpen c.rest
  | .markupComment => FacesComment first origin c ∧ LeavesCommentOpen c.rest

theorem toList_message_element (name : String) :
    (message (.element name)).toList =
      "Unterminated JSX element '<".toList ++ (name.toList ++ ">'".toList) := by
  change ("Unterminated JSX element '<" ++ name ++ ">'").toList = _
  rw [String.toList_append, String.toList_append, List.append_assoc]

/-- Every such message says that something is unterminated. -/
theorem prefix_message (unended : Unended) :
    "Unterminated ".toList <+: unended.message.toList := by
  cases unended with
  | element name =>
      have front : "Unterminated ".toList <+: "Unterminated JSX element '<".toList :=
        ⟨"JSX element '<".toList, rfl⟩
      rw [toList_message_element]
      exact front.trans (List.prefix_append _ _)
  | _ => decide

/-- A message that does not tell of an element is none that does. -/
theorem message_element_ne
    {message : String}
    (other : ¬"Unterminated JSX element '<".toList <+: message.toList)
    (name : String) :
    Unended.message (.element name) ≠ message := by
  rintro rfl
  rw [toList_message_element] at other
  exact other (List.prefix_append _ _)

/-- The message tells what it is. -/
theorem message_injective {unended other : Unended} (same : unended.message = other.message) :
    unended = other := by
  cases unended with
  | element name =>
      cases other with
      | element name' =>
          have chars := congrArg String.toList same
          rw [toList_message_element, toList_message_element] at chars
          have names := List.append_cancel_right (List.append_cancel_left chars)
          rw [String.toList_inj.mp names]
      | _ => exact absurd same (message_element_ne (by decide) name)
  | _ =>
      cases other with
      | element name => exact absurd same.symm (message_element_ne (by decide) name)
      | _ => first | rfl | exact absurd same (by decide)

/-- Nothing is opened by a line feed. -/
theorem not_isOpenAt_of_feed
    (feed : c.peek? = some '\n')
    (unended : Unended) :
    ¬unended.IsOpenAt first origin c := by
  obtain ⟨more, ahead⟩ := peek?_eq_some_iff.mp feed
  cases unended with
  | element name =>
      rintro (⟨-, ⟨inside, opens, -⟩, -⟩ | ⟨_, _, _, _, _, -, -, -, chars, -⟩)
      · have bracket := (eat?_eq_some_iff.mp opens).1
        rw [feed] at bracket
        cases bracket
      · rw [ahead] at chars
        cases chars
  | string =>
      rintro ⟨-, quote, rest, isQuote, chars, -⟩
      rw [ahead] at chars
      cases chars
      rcases isQuote with quoted | quoted | quoted <;> cases quoted
  | value =>
      rintro ⟨-, quote, rest, isQuote, chars, -⟩
      rw [ahead] at chars
      cases chars
      rcases isQuote with quoted | quoted <;> cases quoted
  | heredoc =>
      rintro ⟨-, _, _, _, _, chars, -⟩
      rw [ahead] at chars
      cases chars
  | comment | markupComment =>
      rintro ⟨-, _, chars, -⟩
      rw [ahead] at chars
      cases chars

end Unended

namespace Cause

/-- What a cause tells to be without its end. -/
def unended? : Cause → Option Unended
  | .hostText .unterminatedString | .lexical .unterminatedString => some .string
  | .hostText .unterminatedComment | .lexical .unterminatedComment => some .comment
  | .hostText .unterminatedHeredoc => some .heredoc
  | .markup (.unterminatedElement name) => some (.element name)
  | .markup .unterminatedValue => some .value
  | .markup .unterminatedComment => some .markupComment
  | _ => none

variable {cause : Cause} {unended : Unended}

/-- What is without its end is told by the message. -/
theorem message_of_unended? (tells : cause.unended? = some unended) :
    cause.message = unended.message := by
  unfold unended? at tells
  split at tells <;> cases tells <;> rfl

theorem isOpenAt_of_unended?
    (isOpen : cause.IsOpenAt first origin c)
    (tells : cause.unended? = some unended) :
    unended.IsOpenAt first origin c := by
  unfold unended? at tells
  split at tells <;> cases tells
  · exact ⟨.inl isOpen.1, isOpen.2⟩
  · exact ⟨.inr isOpen.1, isOpen.2⟩
  · exact ⟨.inl isOpen.1, isOpen.2⟩
  · exact ⟨.inr isOpen.1, isOpen.2⟩
  · exact isOpen
  · exact isOpen
  · exact isOpen
  · exact isOpen

/-- A cause that tells of nothing without its end has another message, unless it is stated. -/
theorem message_ne_of_unended?_eq_none
    (isOpen : cause.IsOpenAt first origin c)
    (tells : cause.unended? = none)
    (unended : Unended) :
    cause.message ≠ unended.message := by
  intro same
  have starts := unended.prefix_message
  rw [← same] at starts
  have initial : cause.initial? = some 'U' := by
    obtain ⟨more, chars⟩ := starts
    rw [← cause.head?_message, ← chars]
    rfl
  have inFront (front : String) (more : List Char)
      (starts : "Unterminated ".toList <+: front.toList ++ more)
      (fits : "Unterminated ".toList.length ≤ front.toList.length) :
      "Unterminated ".toList <+: front.toList :=
    List.prefix_of_prefix_length_le starts (List.prefix_append _ _) fits
  cases cause with
  | mode fault => cases fault <;> cases initial
  | hostText cause => cases cause <;> cases tells
  | markup cause =>
      cases cause with
      | unterminatedElement | unterminatedValue | unterminatedComment => cases tells
      | unterminatedHole =>
          cases unended with
          | element name => exact Unended.message_element_ne (by decide) name same.symm
          | _ => exact absurd same (by decide)
      | unexpectedCharacter found tag =>
          change "Unterminated ".toList <+: ("Unexpected character " ++
            quoted (String.singleton found) ++ " in JSX tag '<" ++ tag ++ ">'").toList at starts
          simp only [String.toList_append, List.append_assoc] at starts
          exact absurd (inFront "Unexpected character " _ starts (by decide)) (by decide)
      | _ => cases initial
  | lexical cause =>
      cases cause with
      | unterminatedString | unterminatedComment => cases tells
      | unexpectedCharacter found =>
          change "Unterminated ".toList <+:
            ("Unexpected character: " ++ quoted (String.singleton found)).toList at starts
          rw [String.toList_append] at starts
          exact absurd (inFront "Unexpected character: " _ starts (by decide)) (by decide)
      | _ => cases initial
  | grammar cause => cases cause <;> cases initial
  | stated => exact isOpen

/-- What the message tells to be without its end was opened where the cause leaves it open. -/
theorem isOpenAt_of_message
    (isOpen : cause.IsOpenAt first origin c)
    (same : cause.message = unended.message) :
    unended.IsOpenAt first origin c := by
  cases tells : cause.unended? with
  | none => exact absurd same (message_ne_of_unended?_eq_none isOpen tells unended)
  | some other =>
      have told := message_of_unended? tells
      obtain rfl := Unended.message_injective (told.symm.trans same)
      exact isOpenAt_of_unended? isOpen tells

end Cause

/-! ## Boundaries -/

/--
The line and the column are those of the boundary in front of the character at `n`, and what the
message tells to be without its end was opened there.
-/
structure Fault.PointsTo (text : String) (first : Stage) (fault : Fault) (n : Nat) : Prop where
  inside : n ≤ text.length
  line : fault.position.line = lineBreaks text.toList n + 1
  column : fault.position.column = n - lineStart text.toList n + 1
  unended : ∀ unended : Unended, fault.cause.message = unended.message →
    unended.IsOpenAt first (.ofText text) ((ofText text).advanceBy n)

/-- A fault that is accounted for points to a boundary. -/
theorem Fault.IsAccountedFor.exists_pointsTo
    {text : String}
    {fault : Fault}
    (accounted : fault.IsAccountedFor first (.ofText text)) :
    ∃ n, fault.PointsTo text first n := by
  obtain ⟨c, reached, same, -, isOpen⟩ := accounted
  obtain ⟨n, inside, line, column, place⟩ := exists_boundary_of_le reached
  refine ⟨n, inside, same ▸ line, same ▸ column, fun unended message => ?_⟩
  have opened := Cause.isOpenAt_of_message isOpen message
  rcases place with rfl | feed
  · exact opened
  · exact absurd opened (unended.not_isOpenAt_of_feed feed)

/--
Every fault of a document and of an expression that is read alone points to a boundary in the text:
its line and its column are those of the boundary, and whatever its message tells to be without its
end was opened there.
-/
theorem exists_pointsTo_of_ofText (text : String) (budget : Nat) :
    (∀ fault, Document.ofText text budget = .error fault →
      ∃ n, fault.PointsTo text (.hostText true) n) ∧
    ∀ fault, Expression.ofText text budget = .error fault →
      ∃ n, fault.PointsTo text .expression n :=
  ⟨fun _ failed => (Document.isAccountedFor_of_ofText failed).exists_pointsTo,
    fun _ failed => (Expression.isAccountedFor_of_ofText failed).exists_pointsTo⟩

/-- An element on the second line is left open, and a comment that a text consists of. -/
theorem exists_pointsTo_of_ofText_open :
    (∃ n, Document.ofText "\r\n<a" 9 = .error ⟨.markup (.unterminatedElement "a"), ⟨2, 2, 1⟩⟩ ∧
      Fault.PointsTo "\r\n<a" (.hostText true)
        ⟨.markup (.unterminatedElement "a"), ⟨2, 2, 1⟩⟩ n) ∧
    ∃ n, Expression.ofText "/*" 9 = .error ⟨.lexical .unterminatedComment, ⟨0, 1, 1⟩⟩ ∧
      Fault.PointsTo "/*" .expression ⟨.lexical .unterminatedComment, ⟨0, 1, 1⟩⟩ n := by
  have element : Document.ofText "\r\n<a" 9 =
      .error ⟨.markup (.unterminatedElement "a"), ⟨2, 2, 1⟩⟩ := by
    rw [Document.ofText, Document.elementsFrom_eq_match, HostScanner.next_of_markup rfl rfl]
    dsimp only
    rw [readElement, readElementBehind]
    dsimp only [readHeader]
    conv in readHeaderTail _ _ _ _ _ _ => rw [readHeaderTail]
    rfl
  have comment : Expression.ofText "/*" 9 =
      .error ⟨.lexical .unterminatedComment, ⟨0, 1, 1⟩⟩ := by
    have skipped : skipTrivia (.ofText "/*") =
        ⟨.error ⟨.unterminatedComment, ⟨0, 2, 1, 1, 1⟩⟩, (ofText "/*").advanceBy 2⟩ := by
      rw [skipTrivia]
      rfl
    have start : (TokenStream.fresh true (.ofText "/*")).nextStart =
        .error ⟨.unterminatedComment, ⟨0, 2, 1, 1, 1⟩⟩ := by
      rw [TokenStream.nextStart]
      split <;> rename_i found <;> cases skipped.symm.trans found
      rfl
    have read : readExpression 0 (.initial 9) (.fresh true (.ofText "/*")) =
        .failure ⟨.lexical .unterminatedComment, ⟨0, 1, 1⟩⟩ (.initial 9)
          (.fresh true (.ofText "/*")) := by
      rw [readExpression, TokenStream.onNextStart]
      split <;> rename_i found <;> cases start.symm.trans found
      rfl
    rw [Expression.ofText, read]
  exact ⟨((exists_pointsTo_of_ofText "\r\n<a" 9).1 _ element).imp fun _ points =>
      ⟨element, points⟩,
    ((exists_pointsTo_of_ofText "/*" 9).2 _ comment).imp fun _ points => ⟨comment, points⟩⟩

end EmbeddedMarkup
