import EmbeddedMarkup.Markup.Hole
import EmbeddedMarkup.Markup.TagName

/-!
# Tag headers

Between its `<` and its `>` or `/>` an opening tag has a name and then, in any order, attributes
and spreads.  An attribute has a quoted text, which knows no escapes, a hole, or no value at all.
A fragment `<>` has neither a name nor attributes.
-/

namespace EmbeddedMarkup

variable {ε : Type} {limit : Cursor}

/-- How a tag header ends. -/
inductive HeaderEnd where
  /-- With `>`, in front of content. -/
  | content
  /-- With `/>`, which ends the element too. -/
  | selfClosing
deriving DecidableEq, Repr

/-- What an opening tag says about its element. -/
structure Header (ε : Type) where
  name : String
  attributes : List (AttributeItem ε)
  ending : HeaderEnd

/-- A character that ends the name of an attribute. -/
def isNameDelimiter (c : Char) : Bool :=
  isBlank c || c == '=' || c == '/' || c == '>' || c == '\x7b' || c == '\x7d' || c == '"' ||
    c == '\''

/--
Why a text that is not empty is no attribute name, if it is none.  Attribute names are made of
identifier characters and hyphens, and start with neither a digit nor a hyphen.
-/
def attributeNameFault? (name : List Char) : Option MarkupCause :=
  if (name.head?.map Char.isDigit).getD false then some (.nameStartsWithDigit (String.ofList name))
  else if name.head? = some '-' || !name.all isMarkupNameChar then
    some (.invalidName (String.ofList name))
  else none

/-- Read a quoted value in front of its opening quote. -/
def readQuotedValue [HostConstants ε] (start : Cursor) (quote : Char) :
    Except Fault (Read (start ≤ ·) ε) :=
  let inside := start.advance
  let text := inside.textWhile (· != quote)
  match closed : (inside.advanceBy text.length).eat? quote with
  | none => .error (.markup .unterminatedValue start.position)
  | some stop =>
      .ok ⟨HostConstants.textAt (String.ofList text) (start.spanTo stop), stop,
        Cursor.le_trans start.le_advance
          (Cursor.le_trans (inside.le_advanceBy _) (Cursor.le_of_lt (Cursor.lt_of_eat? closed)))⟩

/-- Read the value of the attribute `name` behind its `=`. -/
def readAttributeValue [HostConstants ε]
    (delegate : DelegateBehind ε limit)
    (modes : ModeStack)
    (start : Cursor)
    (ahead : limit < start)
    (name : String) :
    Outcome (start ≤ ·) ε :=
  match start.peek? with
  | some '"' => .afterRead (readQuotedValue start '"') modes (.success · modes)
  | some '\'' => .afterRead (readQuotedValue start '\'') modes (.success · modes)
  | some '\x7b' =>
      have opened : start ≤ start.advance := start.le_advance
      (readHole delegate modes start.advance
          (Cursor.lt_of_lt_of_le ahead opened)).andThen
        fun value modes stop read =>
          .success (value.getD (HostConstants.nullAt (start.spanTo stop))) modes stop
            (Cursor.le_of_lt (Cursor.lt_of_le_of_lt opened read))
  | _ => .failure (.markup (.expectedValue name) start.position) modes

/-- Read an attribute of the tag `tag`. -/
def readAttribute [HostConstants ε]
    (delegate : DelegateBehind ε limit)
    (modes : ModeStack)
    (start : Cursor)
    (ahead : limit < start)
    (tag : String) :
    Outcome (start < ·) (Attribute ε) :=
  match spelled : start.textWhile (!isNameDelimiter ·) with
  | [] =>
      .failure (.markup (.unexpectedCharacter (start.peek?.getD ' ') tag) start.position) modes
  | first :: more =>
      match attributeNameFault? (first :: more) with
      | some cause => .failure (.markup cause start.position) modes
      | none =>
          let name := String.ofList (first :: more)
          let named := start.advanceBy (more.length + 1)
          have passed : start < named := by
            refine Cursor.lt_advanceBy (Nat.succ_pos _) fun none_left => ?_
            simp [Cursor.textWhile, none_left] at spelled
          match equals : named.skipBlanks.eat? '=' with
          | none =>
              let span := start.spanTo named
              .success ⟨name, HostConstants.trueAt span, span⟩ modes named passed
          | some behind =>
              have valued : start < behind.skipBlanks :=
                Cursor.lt_of_lt_of_le
                  (Cursor.lt_trans passed
                    (Cursor.lt_of_le_of_lt named.le_skipBlanks (Cursor.lt_of_eat? equals)))
                  behind.le_skipBlanks
              (readAttributeValue delegate modes behind.skipBlanks
                  (Cursor.lt_trans ahead valued) name).andThen
                fun value modes stop read =>
                  .success ⟨name, value, start.spanTo stop⟩ modes stop
                    (Cursor.lt_of_lt_of_le valued read)

/-- The entries of a header and the way it ends. -/
abbrev HeaderTail (ε : Type) : Type :=
  List (AttributeItem ε) × HeaderEnd

/-- Put an entry in front of others. -/
def HeaderTail.cons (item : AttributeItem ε) (tail : HeaderTail ε) : HeaderTail ε :=
  (item :: tail.1, tail.2)

/-- Read the attributes of the tag `tag`, which was opened at `opened`, and the end of its
header. -/
def readHeaderTail [HostConstants ε]
    (delegate : DelegateBehind ε limit)
    (modes : ModeStack)
    (start : Cursor)
    (ahead : limit < start)
    (tag : String)
    (opened : Position) :
    Outcome (start < ·) (HeaderTail ε) :=
  let here := start.skipBlanks
  have skipped : start ≤ here := start.le_skipBlanks
  have ahead_here : limit < here := Cursor.lt_of_lt_of_le ahead skipped
  match next : here.peek? with
  | none => .failure (.markup (.unterminatedElement tag) opened) modes
  | some '>' =>
      .success ([], .content) modes here.advance
        (Cursor.lt_of_le_of_lt skipped (Cursor.lt_advance next))
  | some '/' =>
      match closed : here.eatText? "/>" with
      | some stop =>
          .success ([], .selfClosing) modes stop
            (Cursor.lt_of_le_of_lt skipped (Cursor.lt_of_eatText? (by decide) closed))
      | none => .failure (.markup .expectedSelfClose here.position) modes
  | some '\x7b' =>
      have entered : here < here.advance := Cursor.lt_advance next
      (readSpread delegate modes here.advance
          (Cursor.lt_trans ahead_here entered)).andThen
        fun expression modes behind read =>
          have passed : start < behind :=
            Cursor.lt_of_le_of_lt skipped (Cursor.lt_trans entered read)
          ((readHeaderTail delegate modes behind
              (Cursor.lt_trans ahead passed) tag opened).map
            (HeaderTail.cons (.spread ⟨expression, here.spanTo behind⟩))).weaken
            fun _ => Cursor.lt_trans passed
  | some _ =>
      (readAttribute delegate modes here ahead_here tag).andThen
        fun item modes behind read =>
          have passed : start < behind := Cursor.lt_of_le_of_lt skipped read
          ((readHeaderTail delegate modes behind
              (Cursor.lt_trans ahead passed) tag opened).map
            (HeaderTail.cons (.named item))).weaken
            fun _ => Cursor.lt_trans passed
termination_by start.size
decreasing_by
  · exact Cursor.size_lt_of_lt passed
  · exact Cursor.size_lt_of_lt passed

/-- Read an opening tag behind its `<`, which stands at `opened`. -/
def readHeader [HostConstants ε]
    (delegate : DelegateBehind ε limit)
    (modes : ModeStack)
    (start : Cursor)
    (ahead : limit < start)
    (opened : Position) :
    Outcome (start < ·) (Header ε) :=
  let here := start.skipBlanks
  have skipped : start ≤ here := start.le_skipBlanks
  match fragment : here.eat? '>' with
  | some stop =>
      .success ⟨"", [], .content⟩ modes stop
        (Cursor.lt_of_le_of_lt skipped (Cursor.lt_of_eat? fragment))
  | none =>
      .afterRead (readTagName here) modes fun name named passed =>
        have behind : start ≤ named := Cursor.le_trans skipped passed
        ((readHeaderTail delegate modes named
            (Cursor.lt_of_lt_of_le ahead behind) name opened).map
          fun tail => ⟨name, tail.1, tail.2⟩).weaken
          fun _ => Cursor.lt_of_le_of_lt behind

end EmbeddedMarkup
