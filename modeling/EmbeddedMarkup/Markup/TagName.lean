import EmbeddedMarkup.Markup.Outcome

/-!
# Tag names

A tag name is made of segments with points between them, as in `Menu.Item`.  A segment starts
like an identifier and goes on with identifier characters and hyphens.  A closing tag repeats
the name of its opening tag; that of a fragment has no name.
-/

namespace EmbeddedMarkup

/-- A character of a tag name segment or of an attribute name. -/
def isMarkupNameChar (c : Char) : Bool :=
  isIdentifierChar c || c == '-'

/-- The next character starts an identifier. -/
def startsIdentifier (cs : List Char) : Bool :=
  match cs with
  | c :: _ => isIdentifierStart c
  | [] => false

/--
The characters ahead that continue a tag name.  Where the last of them would be a point without
a segment behind it, that point is left and the name is `complete` no longer.
-/
structure TagNameTail where
  text : List Char
  complete : Bool

namespace TagNameTail

/-- Put characters in front of a tail. -/
def prepend (cs : List Char) (tail : TagNameTail) : TagNameTail :=
  ⟨cs ++ tail.text, tail.complete⟩

/-- The longest tail that the characters ahead start with. -/
def read : List Char → TagNameTail
  | [] => ⟨[], true⟩
  | ['.'] => ⟨[], false⟩
  | '.' :: c :: rest =>
      if isIdentifierStart c then (read rest).prepend ['.', c] else ⟨[], false⟩
  | c :: rest => if isMarkupNameChar c then (read rest).prepend [c] else ⟨[], true⟩

end TagNameTail

/-- Read a name at a cursor in front of the start of an identifier. -/
def readDottedName (start : Cursor) : Except Fault (Read (start ≤ ·) String) :=
  let tail := TagNameTail.read start.rest
  let name := String.ofList tail.text
  if tail.complete then
    .ok ⟨name, start.advanceBy tail.text.length, start.le_advanceBy _⟩
  else
    .error (.markup (.expectedNameSegment name)
      (start.advanceBy (tail.text.length + 1)).position)

/-- Read the name of an opening tag, which is not a fragment. -/
def readTagName (start : Cursor) : Except Fault (Read (start ≤ ·) String) :=
  if startsIdentifier start.rest then readDottedName start
  else .error (.markup (.expectedTagName start.peek?) start.position)

/-- Read the name of a closing tag, which is empty for a fragment. -/
def readClosingName (start : Cursor) : Except Fault (Read (start ≤ ·) String) :=
  if startsIdentifier start.rest then readDottedName start
  else .ok ⟨"", start, start.le_refl⟩

/-- Read the closing tag at a cursor in front of `</`, which has to repeat the name `opening`. -/
def readClosingTag (start : Cursor) (opening : String) :
    Except Fault (Read (start < ·) String) :=
  let inside := (start.advanceBy 2).skipBlanks
  have entered : start ≤ inside := Cursor.le_trans (start.le_advanceBy 2) (Cursor.le_skipBlanks _)
  match readClosingName inside with
  | .error fault => .error fault
  | .ok ⟨closing, named, passed⟩ =>
      if closing ≠ opening then
        .error (.markup (.mismatchedTags ⟨opening, closing⟩) start.position)
      else
        match ended : named.skipBlanks.eat? '>' with
        | some stop =>
            .ok ⟨closing, stop, Cursor.lt_of_le_of_lt (Cursor.le_trans entered passed)
              (Cursor.lt_of_le_of_lt named.le_skipBlanks (Cursor.lt_of_eat? ended))⟩
        | none =>
            if named.skipBlanks.isAtEnd then
              .error (.markup (.unterminatedElement opening) start.position)
            else .error (.markup .expectedClosingEnd named.skipBlanks.position)

end EmbeddedMarkup
