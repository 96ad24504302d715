import EmbeddedMarkup.HostText.Token
import EmbeddedMarkup.Text.Cursor

/-!
# Finding markup in host text

A scanner passes over host text unit by unit until it stands in front of markup.  It does not
move over markup itself: whoever reads the markup lets the scanner resume behind it.
-/

namespace EmbeddedMarkup

/-- A place between two units of host text. -/
structure HostScanner where
  cursor : Cursor
  /-- An expression, and so markup, may start at the cursor. -/
  expressionStart : Bool

/-- Why host text could not be passed over, and where its open unit started. -/
abbrev HostTextFault : Type :=
  Located HostTextCause

/-- How a fault in host text is shown to the user. -/
def HostTextFault.display (fault : HostTextFault) : String :=
  fault.position.report "Lexer error" fault.cause.message

namespace HostScanner

/-- The scanner in front of a text, where an expression may start. -/
def ofText (text : String) : HostScanner :=
  ⟨.ofText text, true⟩

/-- Go on behind markup, which is an operand. -/
def resume (_ : HostScanner) (cursor : Cursor) : HostScanner :=
  ⟨cursor, false⟩

/--
Find the next markup.  The scanner stops in front of it, or at the end of the text if there is
none or if a unit has no end.
-/
def next (scanner : HostScanner) : Except HostTextFault (Option Cursor) × HostScanner :=
  let here := scanner.cursor.skipBlanks
  match _ahead : here.rest with
  | [] => (.ok none, { scanner with cursor := here })
  | first :: rest =>
      match hostAhead scanner.expressionStart first rest with
      | .markup => (.ok (some here), { scanner with cursor := here })
      | .pass unit => next ⟨here.advanceBy (unit.tail + 1), unit.expressionNext⟩
      | .unterminated cause =>
          (.error ⟨cause, here.position⟩, { scanner with cursor := here.advanceBy here.size })
termination_by scanner.cursor.size
decreasing_by
  have more : here.rest ≠ [] := by simp [_ahead]
  exact Nat.lt_of_lt_of_le (Cursor.size_lt_of_lt (Cursor.lt_advanceBy (Nat.succ_pos _) more))
    (Cursor.size_le_of_le scanner.cursor.le_skipBlanks)

/-- Markup that is found lies at or behind the scanner. -/
theorem le_of_next
    {scanner stopped : HostScanner}
    {start : Cursor}
    (found : scanner.next = (.ok (some start), stopped)) :
    scanner.cursor ≤ start := by
  fun_induction next scanner with
  | case1 => simp at found
  | case2 scanner here first rest ahead markup =>
      simp only [Prod.mk.injEq, Except.ok.injEq, Option.some.injEq] at found
      exact found.1 ▸ scanner.cursor.le_skipBlanks
  | case3 scanner here first rest ahead unit pass ih =>
      exact Cursor.le_trans
        (Cursor.le_trans scanner.cursor.le_skipBlanks (Cursor.le_advanceBy here _)) (ih found)
  | case4 => simp at found

end HostScanner
end EmbeddedMarkup
