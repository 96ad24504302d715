import EmbeddedMarkup.HostText.Token
import EmbeddedMarkup.Proofs.Reading.Rules
import EmbeddedMarkup.Proofs.Text.Cursor
import Mathlib.Logic.Relation

/-!
# Places between tokens

A reader of host expressions goes from token to token, and over an element where it expects an
operand and a tag is ahead.  So it comes to places between tokens.  What the reader expects at a
place is told by the tokens in front of it.

A scanner of host text sees units, which are not always tokens, and forgets more.  What it takes a
bracket for is told by how the text in front of a place trails off.  Behind most texts this is what
the reader takes it for.  The exceptions are kept apart here: behind names that are spelled like
some keywords of the host language, behind what looks like a cast, behind `--`, and behind a
connective that is written without a gap behind a numeral.
-/

namespace EmbeddedMarkup

/-- What a reader expects at a place. -/
inductive Expected where
  /-- An operand. -/
  | operand
  /-- An operand, or what stands in a list or a choice instead of one. -/
  | item
  /-- What goes on behind an operand. -/
  | connective
  /-- The name of a member. -/
  | member
deriving DecidableEq, Repr

namespace Expected

/-- Markup may be next. -/
def allowsMarkup : Expected → Bool
  | operand | item => true
  | connective | member => false

/-- Tokens with which an operand starts. -/
def startsOperand : Lexeme → Bool
  | .int _ | .float _ | .string _ | .variable _ | .word .identifier _ | .word .fn _ => true
  | .symbol kind => kind == .not || kind == .minus || kind == .leftParen || kind == .leftBracket
  | _ => false

/-- Tokens that may be next, apart from markup. -/
def admits : Expected → Lexeme → Bool
  | operand, lexeme => startsOperand lexeme
  | item, .symbol .rightParen | item, .symbol .rightBracket | item, .symbol .colon
  | item, .symbol .question | item, .symbol .ellipsis => true
  | item, lexeme => startsOperand lexeme
  | connective, .symbol .ellipsis | connective, .endOfInput => false
  | connective, _ => true
  | member, .word .. => true
  | member, _ => false

/-- What is expected behind a symbol. -/
def behindSymbol : Symbol → Expected
  | .rightParen | .rightBracket => connective
  | .arrow | .nullsafeArrow | .doubleColon => member
  | .leftParen | .leftBracket | .comma | .question | .colon | .doubleArrow | .ellipsis => item
  | _ => operand

/-- What is expected behind a token. -/
def behind : Expected → Lexeme → Expected
  | member, .word .. => connective
  | _, .word .logicalAnd _ | _, .word .logicalOr _ | _, .word .logicalXor _ => operand
  | _, .symbol kind => behindSymbol kind
  | _, _ => connective

end Expected

/-- How the text in front of a place trails off. -/
inductive Trail where
  /-- The start, a sign or a connective, behind which an operand follows. -/
  | connective
  /-- A bracket, a comma or the like, behind which an item follows. -/
  | opening
  /-- An operand, or what closes one. -/
  | operand
  /-- An arrow, behind which a member follows. -/
  | arrow
  /-- A minus sign that makes no pair with one in front of it. -/
  | minus
  /-- Two minus signs without a gap. -/
  | decrement
  /-- A numeral, or a name that is written without a gap behind a point behind one. -/
  | numeral
  /-- A connective that is written without a gap behind a numeral. -/
  | glued
  /-- A name that is spelled like a keyword behind which an expression may start. -/
  | keyword
  /-- A parenthesis at a place where a cast might start. -/
  | castOpening
  /-- Such a parenthesis and the name of a type in the same line. -/
  | castType
  /-- What looks like a cast, but is an operand in parentheses. -/
  | cast
deriving DecidableEq, Repr

namespace Trail

/-- What is expected behind a trail. -/
def expected : Trail → Expected
  | connective | minus | decrement | glued => .operand
  | opening | castOpening => .item
  | operand | numeral | keyword | castType | cast => .connective
  | arrow => .member

/-- An expression may start behind the trail, as far as units tell. -/
def expressionStart : Trail → Bool
  | connective | opening | arrow | minus | keyword | castOpening | cast => true
  | operand | decrement | numeral | glued | castType => false

/-- Units tell something else about markup than tokens do. -/
def doubtful : Trail → Bool
  | decrement | glued | keyword | cast => true
  | _ => false

/-- The trail of a symbol. -/
def ofSymbol (expressionStart : Bool) : Symbol → Trail
  | .rightParen | .rightBracket => operand
  | .arrow | .nullsafeArrow | .doubleColon => arrow
  | .leftParen => if expressionStart then castOpening else opening
  | .leftBracket | .comma | .question | .colon | .doubleArrow | .ellipsis => opening
  | .minus => minus
  | _ => connective

/-- The trail of a word, which is a name where one of a member is expected. -/
def ofWord (expected : Expected) (kind : WordKind) (text : String) : Trail :=
  if expected.behind (.word kind text) = .operand then connective
  else if isAmongWords text.toList expressionKeywords then keyword
  else operand

/-- The trail of a token behind another trail, if the two make no common unit. -/
def ofLexeme (trail : Trail) : Lexeme → Trail
  | .int _ | .float _ => numeral
  | .word kind text => ofWord trail.expected kind text
  | .symbol kind => ofSymbol trail.expressionStart kind
  | _ => operand

/-- The trail of a word without a gap behind a numeral. -/
def ofGluedWord (expected : Expected) (kind : WordKind) (text : String) : Trail :=
  if expected.behind (.word kind text) = .operand then glued
  else if '\\' ∈ text.toList then operand
  else numeral

/-- The trail behind a gap and a token. -/
def behind (trail : Trail) (gap : List Char) (lexeme : Lexeme) : Trail :=
  match trail, lexeme with
  | minus, .symbol .minus => if gap = [] then decrement else minus
  | numeral, .symbol .dot => if gap = [] then glued else connective
  | numeral, .word kind text | glued, .word kind text =>
      if gap = [] then ofGluedWord trail.expected kind text else ofWord trail.expected kind text
  | castOpening, .word .identifier text =>
      if gap.all isInlineBlank && isAmongWords text.toList castTypes then castType
      else ofWord .item .identifier text
  | castType, .symbol .rightParen => if gap.all isInlineBlank then cast else operand
  | _, _ => trail.ofLexeme lexeme

section Numerals

variable {trail : Trail} {gap : List Char} {lexeme : Lexeme}
  (numeral : trail = .numeral ∨ trail = .glued)

include numeral

/-- Behind a gap nothing continues a numeral. -/
theorem behind_of_gap (apart : gap ≠ []) : trail.behind gap lexeme = trail.ofLexeme lexeme := by
  rcases numeral with rfl | rfl
  · cases lexeme with
    | symbol kind => cases kind <;> first | rfl | exact if_neg apart
    | word => exact if_neg apart
    | _ => rfl
  · cases lexeme with
    | word => exact if_neg apart
    | _ => rfl

/-- Nothing but a word and a point makes a common unit with a numeral in front of it. -/
theorem behind_of_unjoined
    (unnamed : ∀ kind name, lexeme ≠ .word kind name)
    (pointless : lexeme ≠ .symbol .dot) :
    trail.behind gap lexeme = trail.ofLexeme lexeme := by
  cases lexeme with
  | word kind name => exact absurd rfl (unnamed kind name)
  | symbol kind =>
      rcases numeral with rfl | rfl <;> cases kind <;> first | rfl | exact absurd rfl pointless
  | _ => rcases numeral with rfl | rfl <;> rfl

end Numerals

end Trail

/-- Where a reader stands between tokens. -/
structure HostPlace where
  /-- The elements that it has gone over. -/
  elements : List (Element Expression)
  /-- How the text in front of it trails off. -/
  trail : Trail
  /-- What is ahead. -/
  cursor : Cursor

namespace HostPlace

/-- The place where a reader starts, in front of an operand. -/
def start (c : Cursor) : HostPlace :=
  ⟨[], .connective, c⟩

/-- A reader goes over trivia and a token that may be next, or over an element. -/
inductive Step (level : Nat) : HostPlace → HostPlace → Prop
  | token {elements : List (Element Expression)} {trail : Trail} {lexeme : Lexeme}
      {c first d : Cursor} :
      skipTrivia c = ⟨.ok (), first⟩ →
      NextLexeme c lexeme d →
      trail.expected.admits lexeme = true →
      Step level ⟨elements, trail, c⟩ ⟨elements, trail.behind (c.textTo first) lexeme, d⟩
  | markup {elements : List (Element Expression)} {element : Element Expression} {trail : Trail}
      {c first d : Cursor} :
      skipTrivia c = ⟨.ok (), first⟩ →
      trail.expected.allowsMarkup = true →
      startsMarkup first.rest = true →
      Reads level (.element element) first d →
      Step level ⟨elements, trail, c⟩ ⟨elements ++ [element], .operand, d⟩

/-- A reader comes step by step from one place to another. -/
abbrev Reaches (level : Nat) : HostPlace → HostPlace → Prop :=
  Relation.ReflTransGen (Step level)

/-- Nothing like a tag is ahead if units tell something else about it than tokens do. -/
def Certain (place : HostPlace) : Prop :=
  place.trail.doubtful = true → ∀ first,
    skipTrivia place.cursor = ⟨.ok (), first⟩ →
    startsMarkup first.rest = false

end HostPlace

/-- No line comment in the trivia that are ahead holds the end of host code. -/
inductive KeepsHostCode : Cursor → Prop
  | plain {c : Cursor} :
      CommentReading.ofChars c.skipBlanks.rest = .absent →
      KeepsHostCode c
  | comment {c : Cursor} {length : Nat} :
      CommentReading.ofChars c.skipBlanks.rest = .comment length →
      (c.skipBlanks.startsWith "/*" = false →
        ∀ n, n < length → endsHostCode (c.skipBlanks.rest.drop n) = false) →
      KeepsHostCode (c.skipBlanks.advanceBy length) →
      KeepsHostCode c

/-- Host code does not end in a line comment between the tokens of a text. -/
def StaysHostCode (level : Nat) (text : String) : Prop :=
  ∀ place, (HostPlace.start (.ofText text)).Reaches level place → KeepsHostCode place.cursor

/-- Units tell as much about the host code of a text as tokens do. -/
def HostReadable (level : Nat) (text : String) : Prop :=
  StaysHostCode level text ∧
    ∀ place, (HostPlace.start (.ofText text)).Reaches level place → place.Certain

end EmbeddedMarkup
