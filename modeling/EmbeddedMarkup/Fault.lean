import EmbeddedMarkup.Expression.Token
import EmbeddedMarkup.Markup.Element
import EmbeddedMarkup.Mode.Stack

/-!
# Faults

A fault is a cause and the position it is reported at.  The cause alone determines the kind of
the fault and its message.
-/

namespace EmbeddedMarkup

/-- Which part of a source is at fault. -/
inductive FaultKind where
  /-- Markup or host text without its end, or markup out of order. -/
  | structural
  /-- A name that is not allowed, or two names that should be equal. -/
  | validation
  /-- A host expression. -/
  | delegated
deriving DecidableEq, Repr

/-- Why host text could not be passed over. -/
inductive HostTextCause where
  | unterminatedString
  | unterminatedComment
  | unterminatedHeredoc
deriving DecidableEq, Repr

/-- What a fault in host text says. -/
def HostTextCause.message : HostTextCause → String
  | .unterminatedString => "Unterminated string"
  | .unterminatedComment => "Unterminated comment"
  | .unterminatedHeredoc => "Unterminated heredoc"

/-- Why markup could not be read. -/
inductive MarkupCause where
  /-- An element was asked for where no tag starts. -/
  | expectedElement
  /-- A tag has neither a name nor a `>`. -/
  | expectedTagName (found : Option Char)
  /-- A point in a tag name has no identifier behind it. -/
  | expectedNameSegment (name : String)
  /-- The input ends inside an element. -/
  | unterminatedElement (name : String)
  /-- A tag has a `/` without `>`. -/
  | expectedSelfClose
  /-- A closing tag goes on behind its name. -/
  | expectedClosingEnd
  /-- A character in a tag header starts no attribute. -/
  | unexpectedCharacter (found : Char) (tag : String)
  /-- A quoted attribute value has no closing quote. -/
  | unterminatedValue
  /-- An attribute has `=` without a value. -/
  | expectedValue (name : String)
  /-- A brace in a tag header opens no spread. -/
  | expectedSpread
  /-- A spread stands in content. -/
  | spreadInContent
  /-- The input ends inside a hole. -/
  | unterminatedHole
  /-- A hole goes on behind its expression. -/
  | expectedHoleEnd
  /-- The input ends inside a comment. -/
  | unterminatedComment
  /-- An attribute name starts with a digit. -/
  | nameStartsWithDigit (name : String)
  /-- An attribute name has a character that no such name has. -/
  | invalidName (name : String)
  /-- A closing tag does not repeat the name of its opening tag. -/
  | mismatchedTags (mismatch : TagMismatch)
deriving DecidableEq, Repr

namespace MarkupCause

/-- Names are validated; everything else is structure. -/
def kind : MarkupCause → FaultKind
  | .nameStartsWithDigit _ => .validation
  | .invalidName _ => .validation
  | .mismatchedTags _ => .validation
  | _ => .structural

/-- What a fault in markup says. -/
def message : MarkupCause → String
  | .expectedElement => "Expected '<' to start JSX element"
  | .expectedTagName none => "Expected JSX tag name"
  | .expectedTagName (some found) =>
      "Expected JSX tag name, found " ++ quoted (String.singleton found)
  | .expectedNameSegment name =>
      "Invalid JSX tag name " ++ quoted (name ++ ".") ++ ": expected identifier after '.'"
  | .unterminatedElement name => "Unterminated JSX element '<" ++ name ++ ">'"
  | .expectedSelfClose => "Expected '>' after '/' in JSX tag"
  | .expectedClosingEnd => "Expected '>' after closing tag name"
  | .unexpectedCharacter found tag =>
      "Unexpected character " ++ quoted (String.singleton found) ++ " in JSX tag '<" ++ tag ++ ">'"
  | .unterminatedValue => "Unterminated attribute string"
  | .expectedValue name => "Expected attribute value after '=' for " ++ quoted name
  | .expectedSpread => "Expected '...' in JSX spread"
  | .spreadInContent => "Spread children are not supported in JSX content"
  | .unterminatedHole => "Unterminated JSX expression"
  | .expectedHoleEnd => "Expected '\x7d' to close JSX expression"
  | .unterminatedComment => "Unterminated JSX comment"
  | .nameStartsWithDigit name =>
      "Invalid attribute name " ++ quoted name ++ ": attribute names cannot start with a number"
  | .invalidName name => "Invalid attribute name " ++ quoted name
  | .mismatchedTags mismatch => mismatch.message

end MarkupCause

/-- What the grammar of expressions asked for. -/
inductive Expectation where
  | symbol (kind : Symbol)
  | variable
  | identifier
deriving DecidableEq, Repr

/-- What is asked for, in messages. -/
def Expectation.describe : Expectation → String
  | .symbol kind => quoted kind.spelling
  | .variable => "variable"
  | .identifier => "identifier"

/-- Why a host expression could not be read from its tokens. -/
inductive GrammarCause where
  /-- A token that starts or continues no expression. -/
  | unexpected (found : Lexeme)
  /-- A token in the place of another. -/
  | expected (found : Lexeme) (wanted : Expectation)
  /-- An assignment to something that holds no value. -/
  | notAssignable
deriving DecidableEq, Repr

/-- What a fault in a host expression says. -/
def GrammarCause.message : GrammarCause → String
  | .unexpected found => "Syntax error, unexpected " ++ found.show
  | .expected found wanted =>
      "Syntax error, unexpected " ++ found.describe ++ ", expecting " ++ wanted.describe
  | .notAssignable => "Cannot assign to this expression"

/-- Why a source could not be read. -/
inductive Cause where
  /-- A move between modes was refused. -/
  | mode (fault : ModeFault)
  /-- Host text around markup. -/
  | hostText (cause : HostTextCause)
  /-- Markup. -/
  | markup (cause : MarkupCause)
  /-- The characters of a host expression. -/
  | lexical (cause : LexicalCause)
  /-- The tokens of a host expression. -/
  | grammar (cause : GrammarCause)
  /-- A reason that a host language gives in its own words. -/
  | stated (kind : FaultKind) (message : String)
deriving DecidableEq, Repr

namespace Cause

/-- The kind of a fault follows from its cause. -/
def kind : Cause → FaultKind
  | .mode _ => .structural
  | .hostText _ => .structural
  | .markup cause => cause.kind
  | .lexical _ => .delegated
  | .grammar _ => .delegated
  | .stated kind _ => kind

/-- The message of a fault follows from its cause. -/
def message : Cause → String
  | .mode fault => fault.message
  | .hostText cause => cause.message
  | .markup cause => cause.message
  | .lexical cause => cause.message
  | .grammar cause => cause.message
  | .stated _ message => message

end Cause

/-- A cause and the position it is reported at. -/
abbrev Fault : Type :=
  Located Cause

namespace Fault

/-- A fault in markup. -/
def markup (cause : MarkupCause) (position : Position) : Fault :=
  ⟨.markup cause, position⟩

/-- A refused move between modes, as a fault. -/
def ofMode (fault : ModeRefusal) : Fault :=
  fault.map .mode

/-- A failed reading of a token, as a fault at the start of the text it failed on. -/
def ofLexical (fault : LexicalFault) : Fault :=
  ⟨.lexical fault.cause, fault.span.position⟩

/-- A fault in a host expression at the start of a span. -/
def grammar (cause : GrammarCause) (span : Span) : Fault :=
  ⟨.grammar cause, span.position⟩

/-- How a fault is shown to the user of the program. -/
def display (fault : Fault) : String :=
  fault.position.report "Parse error" fault.cause.message

end Fault
end EmbeddedMarkup
