import EmbeddedMarkup.Number.Double
import EmbeddedMarkup.Text.Position

/-!
# Tokens of host expressions

A token is a lexeme with its span.  Lexemes that carry text or a number hold it; operators and
delimiters are symbols.
-/

namespace EmbeddedMarkup

/-- What a word is, apart from its letters. -/
inductive WordKind where
  /-- A name of the host program. -/
  | identifier
  /-- The keyword `fn`, in any letter case. -/
  | fn
  /-- The operator `and`, in any letter case. -/
  | logicalAnd
  /-- The operator `or`, in any letter case. -/
  | logicalOr
  /-- The operator `xor`, in any letter case. -/
  | logicalXor
deriving DecidableEq, Repr

/-- An operator or a delimiter. -/
inductive Symbol where
  | plus
  | minus
  | star
  | slash
  | percent
  | dot
  | equal
  | notEqual
  | identical
  | notIdentical
  | less
  | greater
  | lessOrEqual
  | greaterOrEqual
  | booleanAnd
  | booleanOr
  | not
  | coalesce
  | assign
  | leftParen
  | rightParen
  | leftBracket
  | rightBracket
  | leftBrace
  | rightBrace
  | comma
  | colon
  | doubleColon
  | semicolon
  | question
  | doubleArrow
  | arrow
  | nullsafeArrow
  | ellipsis
deriving DecidableEq, Repr

/-- How a symbol is spelled.  Inequality has a second spelling, `<>`. -/
def Symbol.spelling : Symbol → String
  | .plus => "+"
  | .minus => "-"
  | .star => "*"
  | .slash => "/"
  | .percent => "%"
  | .dot => "."
  | .equal => "=="
  | .notEqual => "!="
  | .identical => "==="
  | .notIdentical => "!=="
  | .less => "<"
  | .greater => ">"
  | .lessOrEqual => "<="
  | .greaterOrEqual => ">="
  | .booleanAnd => "&&"
  | .booleanOr => "||"
  | .not => "!"
  | .coalesce => "??"
  | .assign => "="
  | .leftParen => "("
  | .rightParen => ")"
  | .leftBracket => "["
  | .rightBracket => "]"
  | .leftBrace => "\x7b"
  | .rightBrace => "\x7d"
  | .comma => ","
  | .colon => ":"
  | .doubleColon => "::"
  | .semicolon => ";"
  | .question => "?"
  | .doubleArrow => "=>"
  | .arrow => "->"
  | .nullsafeArrow => "?->"
  | .ellipsis => "..."

/-- The smallest unit of a host expression. -/
inductive Lexeme where
  /-- An integer literal. -/
  | int (value : Nat)
  /-- A literal with a fraction or an exponent, or an integer that is too large. -/
  | float (value : Double)
  /-- A quoted string, with its escapes resolved. -/
  | string (value : String)
  /-- A variable, without its `$`. -/
  | variable (name : String)
  /-- A name or a keyword, as it is spelled. -/
  | word (kind : WordKind) (text : String)
  /-- An operator or a delimiter. -/
  | symbol (kind : Symbol)
  /-- Nothing is left. -/
  | endOfInput
deriving DecidableEq, Repr

/-- Put a text in single quotation marks. -/
def quoted (text : String) : String :=
  "'" ++ text ++ "'"

/-- What a word is called in messages. -/
def WordKind.describe : WordKind → String
  | .identifier => "identifier"
  | .fn => quoted "fn"
  | .logicalAnd => quoted "and"
  | .logicalOr => quoted "or"
  | .logicalXor => quoted "xor"

/-- What a lexeme is called in messages that name its class. -/
def Lexeme.describe : Lexeme → String
  | .int _ => "integer"
  | .float _ => "float"
  | .string _ => "string"
  | .variable _ => "variable"
  | .word kind _ => kind.describe
  | .symbol kind => quoted kind.spelling
  | .endOfInput => "end of file"

/-- What a lexeme is called in messages that show its text. -/
def Lexeme.show : Lexeme → String
  | .variable name => quoted ("$" ++ name)
  | .word _ text => quoted text
  | lexeme => lexeme.describe

/-- A lexeme and where it stands. -/
structure Token where
  lexeme : Lexeme
  span : Span
deriving DecidableEq, Repr

/-- Why no token could be read. -/
inductive LexicalCause where
  /-- A block comment has no end. -/
  | unterminatedComment
  /-- A string has no closing quote. -/
  | unterminatedString
  /-- A `$` has no name behind it. -/
  | missingVariableName
  /-- A numeral has no digits or a value that is too large. -/
  | invalidNumber (text : String)
  /-- A character starts no token. -/
  | unexpectedCharacter (found : Char)
deriving DecidableEq, Repr

/-- What a failed reading of a token says. -/
def LexicalCause.message : LexicalCause → String
  | .unterminatedComment => "Unterminated comment"
  | .unterminatedString => "Unterminated string"
  | .missingVariableName => "Expected variable name after '$'"
  | .invalidNumber text => "Invalid number: " ++ quoted text
  | .unexpectedCharacter found => "Unexpected character: " ++ quoted (String.singleton found)

/-- A failed reading of a token and the text it failed on. -/
structure LexicalFault where
  cause : LexicalCause
  span : Span
deriving DecidableEq, Repr

/-- How a failed reading of a token is shown to the user. -/
def LexicalFault.display (fault : LexicalFault) : String :=
  fault.span.position.report "Expression lexer error" fault.cause.message

end EmbeddedMarkup
