import EmbeddedMarkup.Markup.Outcome

/-!
# Holes

A hole holds one host expression between braces.  In a tag header a hole whose expression has an
ellipsis in front of it is a spread.  The expression is read by the delegate; blank space around
it is skipped.
-/

namespace EmbeddedMarkup

variable {ε : Type} {limit : Cursor}

/-- Read the brace that ends a hole. -/
def readHoleEnd (start : Cursor) : Except Fault (Read (start < ·) Unit) :=
  match closed : start.eat? '\x7d' with
  | some stop => .ok ⟨(), stop, Cursor.lt_of_eat? closed⟩
  | none =>
      if start.isAtEnd then .error (.markup .unterminatedHole start.position)
      else .error (.markup .expectedHoleEnd start.position)

/-- Leave a hole with what was read in it. -/
def leaveHole {α : Type} (value : α) (modes : ModeStack) (start : Cursor) :
    Outcome (start < ·) α :=
  .afterRead (readHoleEnd start.skipBlanks) modes fun _ stop closed =>
    .afterStep (ModeStack.closeHole stop.position) modes fun _ modes =>
      .success value modes stop (Cursor.lt_of_le_of_lt start.le_skipBlanks closed)

/-- Read the expression of a hole and leave the hole. -/
def readHoleExpression
    (delegate : DelegateBehind ε limit)
    (modes : ModeStack)
    (start : Cursor)
    (ahead : limit < start) :
    Outcome (start < ·) ε :=
  (delegate modes start ahead).andThen fun expression modes behind read =>
    (leaveHole expression modes behind).weaken fun _ => Cursor.lt_of_le_of_lt read

/-- Read a hole behind its opening brace.  A hole that holds only blank space is empty. -/
def readHole
    (delegate : DelegateBehind ε limit)
    (modes : ModeStack)
    (start : Cursor)
    (ahead : limit < start) :
    Outcome (start < ·) (Option ε) :=
  .afterStep (ModeStack.openHole start.position) modes fun _ modes =>
    let inside := start.skipBlanks
    have entered : start ≤ inside := start.le_skipBlanks
    if inside.peek? = some '\x7d' then
      (leaveHole none modes inside).weaken fun _ => Cursor.lt_of_le_of_lt entered
    else
      ((readHoleExpression delegate modes inside
          (Cursor.lt_of_lt_of_le ahead entered)).map some).weaken
        fun _ => Cursor.lt_of_le_of_lt entered

/-- Read a spread behind its opening brace. -/
def readSpread
    (delegate : DelegateBehind ε limit)
    (modes : ModeStack)
    (start : Cursor)
    (ahead : limit < start) :
    Outcome (start < ·) ε :=
  .afterStep (ModeStack.openHole start.position) modes fun _ modes =>
    match dots : start.skipBlanks.eatText? "..." with
    | none => .failure (.markup .expectedSpread start.skipBlanks.position) modes
    | some behind =>
        have entered : start ≤ behind.skipBlanks :=
          Cursor.le_trans start.le_skipBlanks
            (Cursor.le_trans (Cursor.le_of_lt (Cursor.lt_of_eatText? (by decide) dots))
              behind.le_skipBlanks)
        (readHoleExpression delegate modes behind.skipBlanks
            (Cursor.lt_of_lt_of_le ahead entered)).weaken
          fun _ => Cursor.lt_of_le_of_lt entered

/-- The characters behind an opening brace start a spread. -/
def startsSpread (cs : List Char) : Bool :=
  "...".toList.isPrefixOf (cs.dropWhile isBlank)

end EmbeddedMarkup
