import EmbeddedMarkup.Fault
import EmbeddedMarkup.Markup.Start
import EmbeddedMarkup.Text.Comment

/-!
# Units of host text

Host text around markup is not read as expressions.  It is passed over in units that say just
enough: whether an expression may start behind them, and how far strings, comments, heredocs and
inline text reach, in which nothing is markup.
-/

namespace EmbeddedMarkup

/-- A unit of host text, which takes at least one character. -/
structure HostUnit where
  /-- How many characters it takes behind its first. -/
  tail : Nat
  /-- An expression may start behind it. -/
  expressionNext : Bool
deriving DecidableEq, Repr

/-- What the characters ahead of a scanner are. -/
inductive HostAhead where
  /-- Markup. -/
  | markup
  /-- A unit to pass over. -/
  | pass (unit : HostUnit)
  /-- A unit without its end. -/
  | unterminated (cause : HostTextCause)
deriving DecidableEq, Repr

/-- The words behind which an expression may start. -/
def expressionKeywords : List String :=
  ["return", "echo", "print", "yield", "case", "else", "and", "or", "xor", "throw"]

/-- The types that a cast may name. -/
def castTypes : List String :=
  ["int", "integer", "bool", "boolean", "float", "double", "real", "string", "binary", "array",
    "object", "unset"]

/-- A word is one of a list, in any letter case. -/
def isAmongWords (word : List Char) (words : List String) : Bool :=
  words.any fun entry => sameWord entry (String.ofList word)

/-- The characters ahead are the opening of host code in inline text. -/
def startsHostCode (cs : List Char) : Bool :=
  "<?php".toList.isPrefixOf cs || "<?=".toList.isPrefixOf cs

/-- The characters ahead are the end of host code. -/
def endsHostCode (cs : List Char) : Bool :=
  "?>".toList.isPrefixOf cs

/-- The length of the rest of a string, with its closing quote; a backslash escapes any
character. -/
def quotedTail? (quote : Char) : List Char → Option Nat
  | [] => none
  | ['\\'] => none
  | '\\' :: _ :: rest => (quotedTail? quote rest).map (· + 2)
  | c :: rest => if c = quote then some 1 else (quotedTail? quote rest).map (· + 1)

/-- The length of a line comment, which ends with its line or with host code. -/
def lineCommentLength : List Char → Nat
  | [] => 0
  | c :: rest => if isLineEnd c || endsHostCode (c :: rest) then 0 else lineCommentLength rest + 1

/-- The length of inline text, which ends where host code opens. -/
def inlineTextLength : List Char → Nat
  | [] => 0
  | c :: rest => if startsHostCode (c :: rest) then 0 else inlineTextLength rest + 1

/-- A label that stands alone: no identifier character follows it. -/
def isLabelAhead (label cs : List Char) : Bool :=
  label.isPrefixOf cs && !((cs.drop label.length).head?.map isIdentifierChar).getD false

/--
The length of the rest of a heredoc, up to and with its closing label.  The label closes it at
the start of a line, behind blanks at most.
-/
def heredocTail? (label : List Char) : List Char → Option Nat
  | [] => none
  | c :: rest =>
      let blanks := (rest.takeWhile isInlineBlank).length
      if c = '\n' && isLabelAhead label (rest.drop blanks) then
        some (1 + blanks + label.length)
      else (heredocTail? label rest).map (· + 1)

/--
A heredoc behind its `<<<`.  Without a label it is none: the `<<<` and what follows are
operators.
-/
def heredocAhead (cs : List Char) : HostAhead :=
  let blanks := (cs.takeWhile isInlineBlank).length
  let quote := (cs.drop blanks).head?.filter fun c => c == '"' || c == '\''
  let before := blanks + quote.toList.length
  let label := (cs.drop before).takeWhile isIdentifierChar
  if label.isEmpty then .pass ⟨before + 2, true⟩
  else
    let behind := before + label.length
    let closing := if quote.isSome && (cs.drop behind).head? == quote then 1 else 0
    match heredocTail? label (cs.drop (behind + closing)) with
    | some length => .pass ⟨behind + closing + length + 2, false⟩
    | none => .unterminated .unterminatedHeredoc

/-- The length of a cast behind its opening parenthesis, with the closing one. -/
def castTail? (cs : List Char) : Option Nat :=
  let before := (cs.takeWhile isInlineBlank).length
  let word := (cs.drop before).takeWhile isIdentifierChar
  let behind := before + word.length
  let after := behind + ((cs.drop behind).takeWhile isInlineBlank).length
  if (cs.drop after).head? = some ')' && isAmongWords word castTypes then some (after + 1)
  else none

/-- A character of a word of host text, which may be qualified and is not bound to ASCII. -/
def isHostWordChar (c : Char) : Bool :=
  isIdentifierChar c || c == '\\' || isBeyondAscii c

/-- A character that starts a word of host text. -/
def startsHostWord (c : Char) : Bool :=
  isIdentifierStart c || c == '\\' || isBeyondAscii c

/-- A character of a numeral of host text. -/
def isHostNumberChar (c : Char) : Bool :=
  c.isAlphanum || c == '.' || c == '_'

/-- A word that starts with `first`, behind which an expression may start if it is a keyword. -/
def wordAhead (first : Char) (rest : List Char) : HostAhead :=
  let more := rest.takeWhile isHostWordChar
  .pass ⟨more.length, isAmongWords (first :: more) expressionKeywords⟩

/-- A string behind its opening quote. -/
def stringAhead (quote : Char) (rest : List Char) : HostAhead :=
  match quotedTail? quote rest with
  | some length => .pass ⟨length, false⟩
  | none => .unterminated .unterminatedString

/-- A block comment behind its `/*`, which changes nothing. -/
def commentAhead (expressionStart : Bool) (rest : List Char) : HostAhead :=
  match blockCommentTail? rest with
  | some length => .pass ⟨length + 1, expressionStart⟩
  | none => .unterminated .unterminatedComment

/-- What starts with `first`, where `expressionStart` says that an expression may start here. -/
def hostAhead (expressionStart : Bool) (first : Char) (rest : List Char) : HostAhead :=
  let cs := first :: rest
  if "<?php".toList.isPrefixOf cs then .pass ⟨4, true⟩
  else if "<?=".toList.isPrefixOf cs then .pass ⟨2, true⟩
  else if "<<<".toList.isPrefixOf cs then heredocAhead (rest.drop 2)
  else if expressionStart && startsMarkup cs then .markup
  else if endsHostCode cs then .pass ⟨inlineTextLength (rest.drop 1) + 1, true⟩
  else if "//".toList.isPrefixOf cs || first == '#' then
    .pass ⟨lineCommentLength rest, expressionStart⟩
  else if "/*".toList.isPrefixOf cs then commentAhead expressionStart (rest.drop 1)
  else if first == '\'' || first == '"' || first == '\x60' then stringAhead first rest
  else if first == '$' then .pass ⟨(rest.takeWhile isIdentifierChar).length, false⟩
  else if first.isDigit then .pass ⟨(rest.takeWhile isHostNumberChar).length, false⟩
  else if startsHostWord first then wordAhead first rest
  else if first == ')' || first == ']' then .pass ⟨0, false⟩
  else if (first == '+' || first == '-') && rest.head? == some first then .pass ⟨1, false⟩
  else
    match if expressionStart && first == '(' then castTail? rest else none with
    | some length => .pass ⟨length, true⟩
    | none => .pass ⟨0, true⟩

end EmbeddedMarkup
