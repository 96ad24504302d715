import EmbeddedMarkup.Proofs.Expression.Tokenization
import EmbeddedMarkup.Proofs.HostText.Reading
import EmbeddedMarkup.Proofs.HostText.Steps
import EmbeddedMarkup.Proofs.Markup.Calls

/-!
# Stages of reading

Reading a source is at every cursor it comes to at some stage: in host text, in front of an element,
in its header or its content, in front of a value or in a hole.  It arrives there over what it has
read before, and which stages follow each other is told here without modes and without readers.  In
a host expression it goes from token to token and over the elements that are operands.

So it can be said where something was opened that the source leaves open: reading arrived there, in
front of its opening, and what follows does not end it.  A fault is accounted for if it is reported
where what is ahead bears out its cause, and what it leaves open, if anything, was opened there.
-/

namespace EmbeddedMarkup

open Cursor

/-- What is read next at a cursor. -/
inductive Stage where
  /-- Host text, where an expression and so markup may start or not. -/
  | hostText (expressionStart : Bool)
  /-- A whole host expression. -/
  | expression
  /-- An element, in front of its `<`. -/
  | element
  /-- The entries in the header of the element `name`, whose `<` is at `opened`, and its end. -/
  | header (opened : Cursor) (name : String)
  /-- The value of an attribute. -/
  | value
  /-- The content of the element `name`, whose `<` is at `opened`, and its closing tag. -/
  | content (opened : Cursor) (name : String)
  /-- A pair of braces in content. -/
  | braces
  /-- A hole behind its opening brace. -/
  | hole

/-- The element that a stage is a part of: where its `<` is, and its name. -/
def Stage.opening? : Stage → Option (Cursor × String)
  | .header opened name | .content opened name => some (opened, name)
  | _ => none

/-- The stages that reading a whole source starts with. -/
def Stage.IsWhole : Stage → Prop
  | .hostText _ | .expression => True
  | _ => False

/--
Reading that starts with the stage `first` at `origin` arrives at a stage.  The rules tell what
comes next in host text, in host expressions, in headers, in content and in holes.
-/
inductive Arrives (first : Stage) (origin : Cursor) : Stage → Cursor → Prop
  | start : Arrives first origin first origin
  | blanks {expressionStart : Bool} {c : Cursor} :
      Arrives first origin (.hostText expressionStart) c →
      Arrives first origin (.hostText expressionStart) c.skipBlanks
  | unit {expressionStart : Bool} {ch : Char} {rest : List Char} {unit : HostUnit} {c : Cursor} :
      Arrives first origin (.hostText expressionStart) c →
      c.rest = ch :: rest →
      isBlank ch = false →
      hostAhead expressionStart ch rest = .pass unit →
      Arrives first origin (.hostText unit.expressionNext) (c.advanceBy (unit.tail + 1))
  | markup {c : Cursor} :
      Arrives first origin (.hostText true) c →
      startsMarkup c.rest = true →
      Arrives first origin .element c
  | behindMarkup {level : Nat} {element : Element Expression} {c d : Cursor} :
      Arrives first origin (.hostText true) c →
      Reads level (.element element) c d →
      Arrives first origin (.hostText false) d
  | operand {level : Nat} {elements : List (Element Expression)} {expected : Expected}
      {c place start : Cursor} :
      Arrives first origin .expression c →
      ComesTo level c elements expected place →
      expected.allowsMarkup = true →
      skipTrivia place = ⟨.ok (), start⟩ →
      startsMarkup start.rest = true →
      Arrives first origin .element start
  | fragment {c inside d : Cursor} :
      Arrives first origin .element c →
      c.eat? '<' = some inside →
      inside.skipBlanks.eat? '>' = some d →
      Arrives first origin (.content c "") d
  | name {name : String} {c inside d : Cursor} {reached : inside.skipBlanks ≤ d} :
      Arrives first origin .element c →
      c.eat? '<' = some inside →
      readTagName inside.skipBlanks = .ok ⟨name, d, reached⟩ →
      Arrives first origin (.header c name) d
  | behindAttribute {level : Nat} {item : Attribute Expression} {opened c d : Cursor}
      {name : String} :
      Arrives first origin (.header opened name) c →
      Reads level (.attribute item) c.skipBlanks d →
      Arrives first origin (.header opened name) d
  | behindSpread {level : Nat} {operand : Expression} {opened c inside d : Cursor} {name : String} :
      Arrives first origin (.header opened name) c →
      c.skipBlanks.eat? '\x7b' = some inside →
      Reads level (.spread operand) inside d →
      Arrives first origin (.header opened name) d
  | headerEnd {opened c d : Cursor} {name : String} :
      Arrives first origin (.header opened name) c →
      c.skipBlanks.eat? '>' = some d →
      Arrives first origin (.content opened name) d
  | value {opened c behind : Cursor} {name : String} {label : List Char} :
      Arrives first origin (.header opened name) c →
      c.skipBlanks.textWhile (!isNameDelimiter ·) = label →
      label ≠ [] →
      attributeNameFault? label = none →
      (c.skipBlanks.advanceBy label.length).skipBlanks.eat? '=' = some behind →
      Arrives first origin .value behind.skipBlanks
  | child {opened c : Cursor} {name : String} {length : Nat} :
      Arrives first origin (.content opened name) c →
      ContentMark.next c.rest = (length, .openingTag) →
      Arrives first origin .element (c.advanceBy length)
  | behindChild {level length : Nat} {element : Element Expression} {opened c d : Cursor}
      {name : String} :
      Arrives first origin (.content opened name) c →
      ContentMark.next c.rest = (length, .openingTag) →
      Reads level (.element element) (c.advanceBy length) d →
      Arrives first origin (.content opened name) d
  | braces {opened c : Cursor} {name : String} {length : Nat} :
      Arrives first origin (.content opened name) c →
      ContentMark.next c.rest = (length, .brace) →
      Arrives first origin .braces (c.advanceBy length)
  | behindBraces {level length : Nat} {child : Child Expression} {opened c d : Cursor}
      {name : String} :
      Arrives first origin (.content opened name) c →
      ContentMark.next c.rest = (length, .brace) →
      Reads level (.braces child) (c.advanceBy length) d →
      Arrives first origin (.content opened name) d
  | contentHole {c : Cursor} :
      Arrives first origin .braces c →
      readComment? c = .ok none →
      startsSpread c.advance.rest = false →
      Arrives first origin .hole c.advance
  | valueHole {c : Cursor} :
      Arrives first origin .value c →
      c.peek? = some '\x7b' →
      Arrives first origin .hole c.advance
  | filledHole {c : Cursor} :
      Arrives first origin .hole c →
      c.skipBlanks.peek? ≠ some '\x7d' →
      Arrives first origin .expression c.skipBlanks
  | spreadOperand {opened c inside behind : Cursor} {name : String} :
      Arrives first origin (.header opened name) c →
      c.skipBlanks.eat? '\x7b' = some inside →
      inside.skipBlanks.eatText? "..." = some behind →
      Arrives first origin .expression behind.skipBlanks

/-- Reading arrives in front of a token of a host expression, behind any trivia. -/
def FacesToken (first : Stage) (origin c : Cursor) : Prop :=
  ∃ start level elements expected place gap,
    Arrives first origin .expression start ∧
      ComesTo level start elements expected place ∧
      place.Passes gap c ∧ IsTrivia c.rest gap

/-- Reading arrives in front of a pair of braces, and the blank space in them ends here. -/
def FacesComment (first : Stage) (origin c : Cursor) : Prop :=
  ∃ brace inside, Arrives first origin .braces brace ∧ brace.eat? '\x7b' = some inside ∧
    c = inside.skipBlanks

/-! ## What is left open -/

/-- A quoted value opens here, and its quote does not occur again. -/
def LeavesValueOpen (cs : List Char) : Prop :=
  ∃ quote rest, (quote = '\'' ∨ quote = '"') ∧ cs = quote :: rest ∧ quote ∉ rest

/-- What is left open starts with its opening. -/
theorem HostTextCause.LeavesOpen.opens
    {cause : HostTextCause}
    {c : Cursor}
    (leaves : cause.LeavesOpen c.rest) :
    c.Opens cause.openings := by
  cases cause with
  | unterminatedString =>
      obtain ⟨quote, rest, isQuote, ahead, -⟩ := leaves
      rw [Cursor.Opens, ahead]
      rcases isQuote with rfl | rfl | rfl
      · exact ⟨"'", by simp [openings], rest, rfl⟩
      · exact ⟨"\"", by simp [openings], rest, rfl⟩
      · exact ⟨"\x60", by simp [openings], rest, rfl⟩
  | unterminatedComment =>
      obtain ⟨body, ahead, -⟩ := leaves
      exact ⟨"/*", List.mem_singleton.mpr rfl, body, ahead.symm⟩
  | unterminatedHeredoc =>
      obtain ⟨blanks, quote, label, more, ahead, -⟩ := leaves
      exact ⟨"<<<", List.mem_singleton.mpr rfl, _, ahead.symm⟩

/-- The element `name` is opened here, and the source ends in its header or in its content. -/
structure LeavesElementOpen (first : Stage) (origin c : Cursor) (name : String) : Prop where
  arrives : Arrives first origin .element c
  opens : c.OpensElement name
  unended : ∃ d, Arrives first origin (.header c name) d ∧ d.skipBlanks.rest = [] ∨
    Arrives first origin (.content c name) d ∧ (ContentMark.next d.rest).2 = .endOfInput

/-- The closing tag of the element `name` is opened here, and the source ends behind the name. -/
def LeavesClosingTagOpen (first : Stage) (origin c : Cursor) (name : String) : Prop :=
  ∃ opened d length before behind,
    Arrives first origin (.content opened name) d ∧
      ContentMark.next d.rest = (length, .closingTag) ∧ c = d.advanceBy length ∧
      c.rest = "</".toList ++ (before ++ (name.toList ++ behind)) ∧ Blank before ∧ Blank behind

/-- What the cause leaves open was opened at this cursor, where reading arrived. -/
def Cause.IsOpenAt (first : Stage) (origin c : Cursor) : Cause → Prop
  | .markup (.unterminatedElement name) =>
      LeavesElementOpen first origin c name ∨ LeavesClosingTagOpen first origin c name
  | .markup .unterminatedValue => Arrives first origin .value c ∧ LeavesValueOpen c.rest
  | .markup .unterminatedComment => FacesComment first origin c ∧ LeavesCommentOpen c.rest
  | .hostText cause =>
      (∃ expressionStart, Arrives first origin (.hostText expressionStart) c) ∧
        cause.LeavesOpen c.rest
  | .lexical .unterminatedString => FacesToken first origin c ∧ LeavesStringOpen c.rest
  | .lexical .unterminatedComment => FacesToken first origin c ∧ LeavesCommentOpen c.rest
  | .stated _ _ => False
  | _ => True

/-- The fault is reported where its cause is borne out, and what it leaves open was opened. -/
def Fault.IsAccountedFor (first : Stage) (origin : Cursor) (fault : Fault) : Prop :=
  ∃ c, origin ≤ c ∧ fault.position = c.position ∧ fault.cause.Fits c ∧
    fault.cause.IsOpenAt first origin c

/-! ## The way to a stage -/

variable {first : Stage} {origin c d : Cursor} {stage : Stage} {name : String}

/-- In a host expression reading does not go back. -/
theorem ComesTo.le
    {level : Nat}
    {elements : List (Element Expression)}
    {expected : Expected}
    (comes : ComesTo level c elements expected d) :
    c ≤ d := by
  obtain ⟨trail, reaches, -⟩ := comes
  generalize same : (⟨elements, trail, d⟩ : HostPlace) = place at reaches
  have reached : c ≤ place.cursor := by
    clear same
    induction reaches with
    | refl => exact Cursor.le_refl c
    | tail _ step ih => exact Cursor.le_trans ih step.le
  rwa [← same] at reached

/-- More levels do no harm to a way through a host expression. -/
theorem ComesTo.mono
    {level more : Nat}
    {elements : List (Element Expression)}
    {expected : Expected}
    (comes : ComesTo level c elements expected d)
    (fits : level ≤ more) :
    ComesTo more c elements expected d := by
  obtain ⟨trail, reaches, same⟩ := comes
  refine ⟨trail, Relation.ReflTransGen.mono (fun place other step => ?_) _ _ reaches, same⟩
  cases step with
  | token skipped next admitted => exact .token skipped next admitted
  | markup skipped allowed markup reads => exact .markup skipped allowed markup (reads.mono fits)

namespace Arrives

/-- Reading moves on from where it starts. -/
theorem le (arrives : Arrives first origin stage c) : origin ≤ c := by
  induction arrives with
  | start => exact Cursor.le_refl origin
  | blanks _ ih => exact Cursor.le_trans ih (Cursor.le_skipBlanks _)
  | unit _ _ _ _ ih => exact Cursor.le_trans ih (Cursor.le_advanceBy _ _)
  | markup _ _ ih => exact ih
  | behindMarkup _ reads ih => exact Cursor.le_trans ih reads.le
  | operand _ comes _ skipped _ ih =>
      exact Cursor.le_trans (Cursor.le_trans ih comes.le) (le_of_skipTrivia skipped)
  | fragment _ opened closed ih =>
      exact Cursor.le_trans (Cursor.le_trans ih (Cursor.le_of_lt (lt_of_eat? opened)))
        (le_of_skipBlanks_eat? closed)
  | @name _ _ inside _ reached _ opened _ ih =>
      exact Cursor.le_trans (Cursor.le_trans ih (Cursor.le_of_lt (lt_of_eat? opened)))
        (Cursor.le_trans inside.le_skipBlanks reached)
  | @behindAttribute _ _ _ c _ _ _ reads ih =>
      exact Cursor.le_trans (Cursor.le_trans ih c.le_skipBlanks) reads.le
  | behindSpread _ opened reads ih =>
      exact Cursor.le_trans (Cursor.le_trans ih (le_of_skipBlanks_eat? opened)) reads.le
  | headerEnd _ closed ih => exact Cursor.le_trans ih (le_of_skipBlanks_eat? closed)
  | @value _ c behind _ label _ _ _ _ equals ih =>
      have named : c ≤ c.skipBlanks.advanceBy label.length :=
        Cursor.le_trans c.le_skipBlanks (Cursor.le_advanceBy _ _)
      exact Cursor.le_trans (Cursor.le_trans ih named)
        (Cursor.le_trans (le_of_skipBlanks_eat? equals) behind.le_skipBlanks)
  | child _ _ ih => exact Cursor.le_trans ih (Cursor.le_advanceBy _ _)
  | behindChild _ _ reads ih =>
      exact Cursor.le_trans (Cursor.le_trans ih (Cursor.le_advanceBy _ _)) reads.le
  | braces _ _ ih => exact Cursor.le_trans ih (Cursor.le_advanceBy _ _)
  | behindBraces _ _ reads ih =>
      exact Cursor.le_trans (Cursor.le_trans ih (Cursor.le_advanceBy _ _)) reads.le
  | contentHole _ _ _ ih => exact Cursor.le_trans ih (Cursor.le_advance _)
  | valueHole _ _ ih => exact Cursor.le_trans ih (Cursor.le_advance _)
  | filledHole _ _ ih => exact Cursor.le_trans ih (Cursor.le_skipBlanks _)
  | @spreadOperand _ _ inside behind _ _ opened dots ih =>
      exact Cursor.le_trans (Cursor.le_trans ih (le_of_skipBlanks_eat? opened))
        (Cursor.le_trans inside.le_skipBlanks
          (Cursor.le_trans (le_of_eatText? dots) behind.le_skipBlanks))

/-- Reading arrives in front of an element only where markup starts. -/
theorem startsMarkup
    (whole : first.IsWhole)
    (arrives : Arrives first origin .element c) :
    startsMarkup c.rest = true := by
  cases arrives with
  | start => exact whole.elim
  | markup _ markup => exact markup
  | operand _ _ _ _ markup => exact markup
  | child _ mark =>
      have found := ContentMark.startsMarkup_of_next (congrArg Prod.snd mark)
      rwa [mark, ← rest_advanceBy] at found

/-- A header or content belongs to an element in front of which reading arrived before. -/
theorem opensElement
    {opened : Cursor}
    (whole : first.IsWhole)
    (arrives : Arrives first origin stage c)
    (inside : stage.opening? = some (opened, name)) :
    Arrives first origin .element opened ∧ opened.OpensElement name := by
  induction arrives with
  | start => cases first <;> first | exact whole.elim | cases inside
  | fragment arrives opens closed _ =>
      cases inside
      exact ⟨arrives, _, opens, .inl ⟨rfl, (eat?_eq_some_iff.mp closed).1⟩⟩
  | name arrives opens read _ =>
      cases inside
      exact ⟨arrives, _, opens, .inr ⟨_, read, rfl⟩⟩
  | behindAttribute _ _ ih => exact ih inside
  | behindSpread _ _ _ ih => exact ih inside
  | headerEnd _ _ ih => exact ih inside
  | behindChild _ _ _ ih => exact ih inside
  | behindBraces _ _ _ ih => exact ih inside
  | _ => cases inside

end Arrives

/-! ## Outcomes -/

section Outcomes

variable {α β : Type} {P Q : Cursor → Prop}

namespace Fault

theorem isAccountedFor_markup
    {cause : MarkupCause}
    (reached : origin ≤ c)
    (fits : cause.Fits c)
    (isOpen : (Cause.markup cause).IsOpenAt first origin c) :
    (Fault.markup cause c.position).IsAccountedFor first origin :=
  ⟨c, reached, rfl, fits, isOpen⟩

/-- What is ahead of a fault that is accounted for bears out its cause. -/
theorem IsAccountedFor.isFounded
    {fault : Fault}
    (accounted : fault.IsAccountedFor first origin) :
    fault.IsFounded origin := by
  obtain ⟨c, reached, same, fits, -⟩ := accounted
  exact ⟨c, reached, same, fits⟩

end Fault

/-- The outcome is no fault, or one that is accounted for. -/
def Outcome.AccountsFor (first : Stage) (origin : Cursor) (outcome : Outcome P α) : Prop :=
  ∀ fault modes, outcome = .failure fault modes → fault.IsAccountedFor first origin

/-- The reading is no fault, or one that is accounted for. -/
def ReadAccountsFor (first : Stage) (origin : Cursor) (read : Except Fault α) : Prop :=
  ∀ fault, read = .error fault → fault.IsAccountedFor first origin

namespace Outcome.AccountsFor

variable {outcome : Outcome P α} {modes : ModeStack}

theorem success {value : α} {stop : Cursor} {reached : P stop} :
    (Outcome.success value modes stop reached : Outcome P α).AccountsFor first origin := by
  intro fault modes failed
  cases failed

theorem failure {fault : Fault} (accounted : fault.IsAccountedFor first origin) :
    (Outcome.failure fault modes : Outcome P α).AccountsFor first origin := by
  intro fault modes failed
  cases failed
  exact accounted

theorem andThen
    {next : α → ModeStack → (stop : Cursor) → P stop → Outcome Q β}
    (accounts : outcome.AccountsFor first origin)
    (second : ∀ value modes stop reached, outcome.Yields value modes stop →
      (next value modes stop reached).AccountsFor first origin) :
    (outcome.andThen next).AccountsFor first origin := by
  cases outcome with
  | success => exact second _ _ _ _ ⟨_, rfl⟩
  | failure => exact failure (accounts _ _ rfl)

theorem map {f : α → β} (accounts : outcome.AccountsFor first origin) :
    (outcome.map f).AccountsFor first origin :=
  accounts.andThen fun _ _ _ _ _ => success

theorem weaken
    {weaker : ∀ stop, P stop → Q stop}
    (accounts : outcome.AccountsFor first origin) :
    (outcome.weaken weaker).AccountsFor first origin :=
  accounts.andThen fun _ _ _ _ _ => success

/-- A move that is refused leaves nothing open. -/
theorem afterStep
    {step : Position → ModeStep β}
    {next : β → ModeStack → Outcome P α}
    (opensNone : ModeStack.OpensNoTag step)
    (reached : origin ≤ c)
    (second : ∀ value after, step c.position modes = .ok value after →
      (next value after).AccountsFor first origin) :
    (Outcome.afterStep (step c.position) modes next).AccountsFor first origin := by
  unfold Outcome.afterStep
  cases moved : step c.position modes with
  | ok value after => exact second value after moved
  | error refusal after =>
      obtain ⟨same, none⟩ := opensNone _ _ _ _ moved
      exact failure ⟨c, reached, same, fun refuses => absurd refuses none, trivial⟩

/-- Where a tag may open, markup is ahead. -/
theorem afterOpenTag
    {next : Nat → ModeStack → Outcome P α}
    (reached : origin ≤ c)
    (markup : startsMarkup c.rest = true)
    (second : ∀ depth after, ModeStack.openTag c.position modes = .ok depth after →
      (next depth after).AccountsFor first origin) :
    (Outcome.afterStep (ModeStack.openTag c.position) modes next).AccountsFor first origin := by
  unfold Outcome.afterStep
  rcases ModeStack.isPlaced_openTag modes with ⟨depth, after, allowed⟩ | ⟨cause, after, refused⟩
  · rw [allowed]
    exact second depth after (allowed _)
  · rw [refused]
    exact failure ⟨c, reached, rfl, fun _ => markup, trivial⟩

theorem afterRead
    {read : Except Fault (Read Q β)}
    {next : β → (stop : Cursor) → Q stop → Outcome P α}
    (accounts : ReadAccountsFor first origin read)
    (second : ∀ value stop reached, read = .ok ⟨value, stop, reached⟩ →
      (next value stop reached).AccountsFor first origin) :
    (Outcome.afterRead read modes next).AccountsFor first origin := by
  unfold Outcome.afterRead
  cases read with
  | ok read => exact second _ _ _ rfl
  | error fault => exact failure (accounts fault rfl)

end Outcome.AccountsFor

end Outcomes

end EmbeddedMarkup
