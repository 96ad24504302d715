import EmbeddedMarkup.Proofs.Reading.Rules
import EmbeddedMarkup.Proofs.Text.Cursor

/-!
# Reading moves on

A derivation by the rules of reading never leads back: the cursor it ends at is reached from the
cursor it starts at.  An element takes at least one character.
-/

namespace EmbeddedMarkup

variable {c d : Cursor}

theorem MayTake.le
    {kind : Symbol}
    {taken : Bool}
    (may : MayTake kind c taken d) :
    c ≤ d := by
  cases may with
  | taken next => exact next.le
  | left => exact c.le_refl

theorem MayTakeIdentifier.le (may : MayTakeIdentifier c d) : c ≤ d := by
  cases may with
  | taken next => exact next.le
  | left => exact c.le_refl

theorem le_of_readToken
    {token : Token}
    (read : readToken c = ⟨.ok token, d⟩) :
    c ≤ d := by
  have reached := le_readToken c
  rwa [read] at reached

theorem le_of_skipTrivia (skipped : skipTrivia c = ⟨.ok (), d⟩) : c ≤ d := by
  have reached := le_skipTrivia c
  rwa [skipped] at reached

namespace Cursor

theorem le_of_skipBlanks_eat? {expected : Char} (eaten : c.skipBlanks.eat? expected = some d) :
    c ≤ d :=
  Cursor.le_trans c.le_skipBlanks (Cursor.le_of_lt (lt_of_eat? eaten))

theorem le_of_eatText? {expected : String} (eaten : c.eatText? expected = some d) : c ≤ d := by
  obtain ⟨-, rfl⟩ := Cursor.eatText?_eq_some_iff.mp eaten
  exact c.le_advanceBy _

end Cursor

/-- Reading moves on. -/
theorem Reads.le
    {level : Nat}
    {phrase : Phrase}
    (reads : Reads level phrase c d) :
    c ≤ d := by
  induction reads with
  | _ =>
      grind [→ Cursor.le_trans, Cursor.le_refl, → NextLexeme.le, → MayTake.le,
        → MayTakeIdentifier.le, → le_of_readToken, → le_of_skipTrivia,
        → Cursor.le_of_skipBlanks_eat?, Cursor.le_skipBlanks, → Cursor.le_of_eatText?,
        → Cursor.lt_of_eat?, → Cursor.le_of_lt, Cursor.le_skipWhile, Cursor.le_advance,
        Cursor.le_advanceBy]

end EmbeddedMarkup
