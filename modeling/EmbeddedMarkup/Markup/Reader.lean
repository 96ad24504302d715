import EmbeddedMarkup.Markup.Content
import EmbeddedMarkup.Markup.Header

/-!
# Reading elements

An element is an opening tag, and unless that ends with `/>`, content up to a closing tag of the
same name.  Children are elements again, so the readers for elements and for content call each
other.  Both read on from where they stand, and content reads an element only where a tag is, so
the characters ahead grow fewer.

The readers work for every host language.  All that they ask of it is a delegate that reads
expressions, and constants for what is left out.
-/

namespace EmbeddedMarkup

variable {ε : Type} {limit : Cursor}

/-- The children of an element and the name in its closing tag. -/
abbrev Content (ε : Type) : Type :=
  List (Child ε) × String

/-- Put children in front of others. -/
def Content.prepend (children : List (Child ε)) (content : Content ε) : Content ε :=
  (children ++ content.1, content.2)

/-- Make an element of a header and the content that follows it. -/
def closeElement
    (header : Header ε)
    (content : Content ε)
    (modes : ModeStack)
    (start : Cursor)
    (stop : Cursor)
    (passed : start < stop) :
    Outcome (start < ·) (Element ε) :=
  .afterStep (ModeStack.closeTag stop.position) modes fun _ modes =>
    match Element.closed header.name header.attributes content.1 content.2
        (start.spanTo stop) with
    | .ok element => .success element modes stop passed
    | .error mismatch => .failure (.markup (.mismatchedTags mismatch) start.position) modes

mutual

/-- Read the element or fragment that starts at a cursor. -/
def readElementBehind [HostConstants ε]
    (delegate : DelegateBehind ε limit)
    (modes : ModeStack)
    (start : Cursor)
    (ahead : limit ≤ start) :
    Outcome (start < ·) (Element ε) :=
  match opened : start.eat? '<' with
  | none => .failure (.markup .expectedElement start.position) modes
  | some inside =>
      have entered : start < inside := Cursor.lt_of_eat? opened
      .afterStep (ModeStack.openTag start.position) modes fun _ modes =>
        (readHeader delegate modes inside
            (Cursor.lt_of_le_of_lt ahead entered) start.position).andThen
          fun header modes behind read =>
            have passed : start < behind := Cursor.lt_trans entered read
            match header.ending with
            | .selfClosing =>
                .afterStep (ModeStack.selfClose behind.position) modes fun _ modes =>
                  .success (.selfClosing header.name header.attributes (start.spanTo behind))
                    modes behind passed
            | .content =>
                .afterStep (ModeStack.enterContent behind.position) modes fun _ modes =>
                  (readContentBehind delegate modes behind
                      (Cursor.lt_of_le_of_lt ahead passed)
                      header.name start.position .tag).andThen
                    fun content modes stop read =>
                      closeElement header content modes start stop (Cursor.lt_trans passed read)
termination_by (start.size, 0)
decreasing_by
  exact Prod.Lex.left _ _ (Cursor.size_lt_of_lt passed)

/--
Read the content of the element `name`, which was opened at `opened`, and its closing tag.  What
stands in front of the cursor is `left`.
-/
def readContentBehind [HostConstants ε]
    (delegate : DelegateBehind ε limit)
    (modes : ModeStack)
    (start : Cursor)
    (ahead : limit < start)
    (name : String)
    (opened : Position)
    (left : Boundary) :
    Outcome (start < ·) (Content ε) :=
  let (length, mark) := ContentMark.next start.rest
  let here := start.advanceBy length
  have reached : start ≤ here := start.le_advanceBy length
  have ahead_here : limit < here := Cursor.lt_of_lt_of_le ahead reached
  match mark with
  | .endOfInput => .failure (.markup (.unterminatedElement name) opened) modes
  | .closingTag =>
      .afterRead (readClosingTag here name) modes fun closing stop read =>
        .success (literalText start length left .tag, closing) modes stop
          (Cursor.lt_of_le_of_lt reached read)
  | .openingTag =>
      (readElementBehind delegate modes here (Cursor.le_of_lt ahead_here)).andThen
        fun element modes behind read =>
          have passed : start < behind := Cursor.lt_of_le_of_lt reached read
          ((readContentBehind delegate modes behind
              (Cursor.lt_trans ahead passed) name opened .tag).map
            (Content.prepend (literalText start length left .tag ++ [.element element]))).weaken
            fun _ => Cursor.lt_trans passed
  | .brace =>
      (readBraces delegate modes here ahead_here).andThen
        fun child modes behind read =>
          have passed : start < behind := Cursor.lt_of_le_of_lt reached read
          ((readContentBehind delegate modes behind
              (Cursor.lt_trans ahead passed) name opened .hole).map
            (Content.prepend (literalText start length left .hole ++ [child]))).weaken
            fun _ => Cursor.lt_trans passed
termination_by (start.size, 1)
decreasing_by
  · rcases Nat.lt_or_eq_of_le (Cursor.size_le_of_le reached) with less | same
    · exact Prod.Lex.left _ _ less
    · simp only [here] at same
      rw [same]
      exact Prod.Lex.right _ Nat.zero_lt_one
  · exact Prod.Lex.left _ _ (Cursor.size_lt_of_lt passed)
  · exact Prod.Lex.left _ _ (Cursor.size_lt_of_lt passed)

end

/-- Read the element or fragment that starts at a cursor. -/
def readElement [HostConstants ε]
    (delegate : Delegate ε)
    (modes : ModeStack)
    (start : Cursor) :
    Outcome (start < ·) (Element ε) :=
  readElementBehind (delegate.behind start) modes start start.le_refl

end EmbeddedMarkup
