import EmbeddedMarkup.Markup.Hole
import EmbeddedMarkup.Markup.Start
import EmbeddedMarkup.Text.Comment
import EmbeddedMarkup.Text.Normalization

/-!
# Content

In content only tags and braces have a meaning; every other character is literal text.  A pair
of braces holds a host expression, a comment, or nothing.
-/

namespace EmbeddedMarkup

variable {ε : Type} {limit : Cursor}

/-- What ends a run of literal text. -/
inductive ContentMark where
  | endOfInput
  | closingTag
  | openingTag
  | brace
deriving DecidableEq, Repr

namespace ContentMark

/-- The mark that the character `c` makes in front of `rest`, if it is no literal text. -/
def at? (c : Char) (rest : List Char) : Option ContentMark :=
  if c = '<' ∧ rest.head? = some '/' then some .closingTag
  else if startsMarkup (c :: rest) then some .openingTag
  else if c = '\x7b' then some .brace
  else none

/-- The next mark, and the number of characters in front of it. -/
def next : List Char → Nat × ContentMark
  | [] => (0, .endOfInput)
  | c :: rest =>
      match at? c rest with
      | some mark => (0, mark)
      | none =>
          let (length, mark) := next rest
          (length + 1, mark)

end ContentMark

/-- What stands next to a run of literal text. -/
inductive Boundary where
  /-- A tag, of the element itself or of a child. -/
  | tag
  /-- A pair of braces. -/
  | hole
deriving DecidableEq, Repr

/-- The child that the next `length` characters make, unless they are blank. -/
def literalText (start : Cursor) (length : Nat) (left right : Boundary) : List (Child ε) :=
  match normalizeText (start.rest.take length) (left == .tag) (right == .tag) with
  | some value => [.text ⟨value, start.spanTo (start.advanceBy length)⟩]
  | none => []

/-- Read the comment in a pair of braces, if they hold nothing else. -/
def readComment? (start : Cursor) : Except Fault (Option (Read (start < ·) Comment)) :=
  match opened : start.eat? '\x7b' with
  | none => .ok none
  | some inside =>
      let comment := inside.skipBlanks
      if comment.startsWith "/*" then
        match blockCommentTail? (comment.rest.drop 2) with
        | none => .error (.markup .unterminatedComment comment.position)
        | some tail =>
            let behind := (comment.advanceBy (tail + 2)).skipBlanks
            match closed : behind.eat? '\x7d' with
            | none => .ok none
            | some stop =>
                have passed : inside ≤ behind :=
                  Cursor.le_trans inside.le_skipBlanks
                    (Cursor.le_trans (comment.le_advanceBy _) (Cursor.le_skipBlanks _))
                .ok (some
                  ⟨⟨String.ofList (comment.rest.take (tail + 2)), start.spanTo stop⟩, stop,
                    Cursor.lt_trans (Cursor.lt_of_eat? opened)
                      (Cursor.lt_of_le_of_lt passed (Cursor.lt_of_eat? closed))⟩)
      else .ok none

/-- Read a comment or a hole in front of its opening brace. -/
def readBraces [HostConstants ε]
    (delegate : DelegateBehind ε limit)
    (modes : ModeStack)
    (start : Cursor)
    (ahead : limit < start) :
    Outcome (start < ·) (Child ε) :=
  match readComment? start with
  | .error fault => .failure fault modes
  | .ok (some comment) => .success (.comment comment.value) modes comment.stop comment.reached
  | .ok none =>
      let inside := start.advance
      have entered : start ≤ inside := start.le_advance
      if startsSpread inside.rest then .failure (.markup .spreadInContent start.position) modes
      else
        (readHole delegate modes inside
            (Cursor.lt_of_lt_of_le ahead entered)).andThen
          fun value modes stop read =>
            let expression := value.getD (HostConstants.nullAt (start.spanTo stop))
            .success (.hole ⟨expression, start.spanTo stop⟩) modes stop
              (Cursor.lt_of_le_of_lt entered read)

end EmbeddedMarkup
