import EmbeddedMarkup.Proofs.HostText.Causes
import EmbeddedMarkup.Proofs.Text.Slice

/-!
# Runs of a scanner

Whatever is asked of one scanner, in any order, it searches onwards.  Looking for markup ends: each
turn of the loop that does not answer takes at least one character, so there are no more of them
than characters ahead.  Markup that is found stays found until the scanner resumes behind it.  A
scanner that has failed stands at the end of the text, like one that has found nothing, and finds
nothing from then on.
-/

namespace EmbeddedMarkup

/-- A call that can be made on a scanner. -/
inductive ScannerCall where
  /-- Look for markup. -/
  | next
  /-- Go on behind markup, so many characters behind the place of the scanner. -/
  | resume (stride : Nat)
deriving DecidableEq, Repr

namespace HostScanner

variable {scanner further : HostScanner} {text : String}

/-- The scanner that a call leaves. -/
def leftBy (scanner : HostScanner) : ScannerCall → HostScanner
  | .next => scanner.next.2
  | .resume stride => scanner.resume (scanner.cursor.advanceBy stride)

/-- The scanner after a run of calls. -/
def afterCalls (scanner : HostScanner) (calls : List ScannerCall) : HostScanner :=
  calls.foldl leftBy scanner

/-! ## The loop -/

/-- What one turn of the loop comes to: an answer, or a scanner for the next turn. -/
def turn (scanner : HostScanner) : (HostFinding × HostScanner) ⊕ HostScanner :=
  let here := scanner.cursor.skipBlanks
  match here.rest with
  | [] => .inl (.ok none, { scanner with cursor := here })
  | first :: rest =>
      match hostAhead scanner.expressionStart first rest with
      | .markup => .inl (.ok (some here), { scanner with cursor := here })
      | .pass unit => .inr ⟨here.advanceBy (unit.tail + 1), unit.expressionNext⟩
      | .unterminated cause =>
          .inl (.error ⟨cause, here.position⟩, { scanner with cursor := here.advanceBy here.size })

/-- The loop, broken off without an answer after `limit` turns. -/
def nextWithin : (limit : Nat) → HostScanner → Option (HostFinding × HostScanner)
  | 0, _ => none
  | limit + 1, scanner =>
      match scanner.turn with
      | .inl answer => some answer
      | .inr further => nextWithin limit further

/-- The loop answers as its first turn does, or as it does from the next turn on. -/
theorem next_eq_turn (scanner : HostScanner) :
    scanner.next =
      match scanner.turn with
      | .inl answer => answer
      | .inr further => further.next := by
  cases ahead : scanner.cursor.skipBlanks.rest with
  | nil => simp only [next_of_ended ahead, turn, ahead]
  | cons first rest =>
      simp only [next_of_ahead ahead, turn, ahead]
      cases hostAhead scanner.expressionStart first rest <;> rfl

/-- A turn that does not answer takes at least one character. -/
theorem lt_of_turn (goesOn : scanner.turn = .inr further) : scanner.cursor < further.cursor := by
  unfold turn at goesOn
  dsimp only at goesOn
  split at goesOn
  · cases goesOn
  · rename_i ahead
    split at goesOn
    · cases goesOn
    · rename_i unit _
      cases goesOn
      have more : scanner.cursor.skipBlanks.rest ≠ [] := ahead ▸ List.cons_ne_nil _ _
      exact Cursor.lt_of_le_of_lt scanner.cursor.le_skipBlanks
        (Cursor.lt_advanceBy (Nat.succ_pos unit.tail) more)
    · cases goesOn

/-- The loop has answered before it has made more turns than characters are ahead, and one. -/
theorem nextWithin_eq_next {limit : Nat} (enough : scanner.cursor.size < limit) :
    nextWithin limit scanner = some scanner.next := by
  induction limit generalizing scanner with
  | zero => exact absurd enough (Nat.not_lt_zero _)
  | succ limit ih =>
      rw [nextWithin, next_eq_turn scanner]
      cases taken : scanner.turn with
      | inl answer => rfl
      | inr further =>
          have fewer := Cursor.size_lt_of_lt (lt_of_turn taken)
          exact ih (Nat.lt_of_lt_of_le fewer (Nat.le_of_lt_succ enough))

/-! ## One call -/

/-- Looking for markup never moves a scanner back. -/
theorem le_next (scanner : HostScanner) : scanner.cursor ≤ scanner.next.2.cursor := by
  fun_induction next scanner with
  | case1 scanner here => exact scanner.cursor.le_skipBlanks
  | case2 scanner here => exact scanner.cursor.le_skipBlanks
  | case3 scanner here first rest ahead unit pass ih =>
      exact Cursor.le_trans scanner.cursor.le_skipBlanks
        (Cursor.le_trans (Cursor.le_advanceBy here _) ih)
  | case4 scanner here =>
      exact Cursor.le_trans scanner.cursor.le_skipBlanks (Cursor.le_advanceBy here _)

/-- A scanner stands in front of the markup that it has found, and finds it again. -/
theorem next_next_of_found {start : Cursor} (found : scanner.next.1 = .ok (some start)) :
    scanner.next.2.cursor = start ∧ scanner.next.2.next = scanner.next := by
  fun_induction next scanner with
  | case1 => cases found
  | case2 scanner here first rest ahead markup =>
      obtain rfl : here = start := Option.some.inj (Except.ok.inj found)
      have still : here.skipBlanks = here := Cursor.skipBlanks_skipBlanks scanner.cursor
      have again := @next_of_markup ⟨here, scanner.expressionStart⟩ first rest
        (by rw [still]; exact ahead) markup
      dsimp only at again
      rw [still] at again
      exact ⟨rfl, again⟩
  | case3 scanner here first rest ahead unit pass ih => exact ih found
  | case4 => cases found

/-- A scanner that finds no markup is left at the end of the text. -/
theorem rest_next_of_not_found (missing : ∀ start, scanner.next.1 ≠ .ok (some start)) :
    scanner.next.2.cursor.rest = [] := by
  fun_induction next scanner with
  | case1 scanner here ended => exact ended
  | case2 scanner here => exact absurd rfl (missing here)
  | case3 scanner here first rest ahead unit pass ih => exact ih missing
  | case4 scanner here =>
      rw [Cursor.rest_advanceBy, Cursor.size, List.drop_length]

/-- Markup starts with a `<` that is not the one of host code or of a heredoc. -/
theorem not_prefix_of_startsMarkup_mark
    {cs : List Char}
    {mark : String}
    (markup : startsMarkup cs = true)
    (isMark : mark ∈ ["<?php", "<?=", "<<<"]) :
    ¬mark.toList <+: cs := by
  rintro ⟨behind, rfl⟩
  simp only [List.mem_cons, List.not_mem_nil, or_false] at isMark
  rcases isMark with rfl | rfl | rfl <;> cases markup

/-! ## Runs of calls -/

/-- At the end of a text a scanner finds nothing. -/
theorem next_of_rest_eq_nil (ended : scanner.cursor.rest = []) : scanner.next.1 = .ok none := by
  have still : scanner.cursor.skipBlanks.rest = [] := by
    rw [Cursor.rest_skipBlanks, ended, List.dropWhile_nil]
  rw [next_of_ended still]

/-- No call moves a scanner back. -/
theorem le_leftBy (scanner : HostScanner) (call : ScannerCall) :
    scanner.cursor ≤ (scanner.leftBy call).cursor := by
  cases call with
  | next => exact scanner.le_next
  | resume stride => exact Cursor.le_advanceBy _ stride

/-- No run of calls moves a scanner back. -/
theorem le_afterCalls (scanner : HostScanner) (calls : List ScannerCall) :
    scanner.cursor ≤ (scanner.afterCalls calls).cursor := by
  induction calls generalizing scanner with
  | nil => exact Cursor.le_refl _
  | cons call calls ih => exact Cursor.le_trans (scanner.le_leftBy call) (ih _)

/-- What holds of a scanner after every run of calls on a new one in front of this text. -/
structure SearchesOnwards (text : String) (scanner : HostScanner) : Prop where
  /-- The loop ends, with at most one turn for each character ahead and one more. -/
  ends : ∀ limit, scanner.cursor.size < limit → nextWithin limit scanner = some scanner.next
  /-- Looking for markup does not move the scanner back. -/
  onwards : scanner.cursor ≤ scanner.next.2.cursor
  /--
  Markup that is found lies where the scanner stands then.  It opens neither host code nor a
  heredoc, and looking again finds it again and moves nothing.
  -/
  found : ∀ start, scanner.next.1 = .ok (some start) →
    start = scanner.next.2.cursor ∧ startsMarkup start.rest = true ∧
      (∀ mark ∈ ["<?php", "<?=", "<<<"], ¬mark.toList <+: start.rest) ∧
      scanner.next.2.next = scanner.next
  /-- A failure leaves the scanner at the end of the text. -/
  failed : ∀ fault, scanner.next.1 = .error fault →
    scanner.next.2.cursor.rest = [] ∧
      scanner.next.2.cursor.position.offset = text.utf8ByteSize
  /-- Behind a failure, and behind a search that found nothing, no search finds anything. -/
  exhausted : (∀ start, scanner.next.1 ≠ .ok (some start)) →
    ∀ later, (scanner.next.2.afterCalls later).next.1 = .ok none

/-- A scanner in front of nothing stays there. -/
theorem rest_afterCalls_eq_nil (ended : scanner.cursor.rest = []) (calls : List ScannerCall) :
    (scanner.afterCalls calls).cursor.rest = [] := by
  have fewer := Cursor.size_le_of_le (scanner.le_afterCalls calls)
  rw [Cursor.size, Cursor.size, ended, List.length_nil] at fewer
  exact List.length_eq_zero_iff.mp (Nat.le_zero.mp fewer)

/-- A scanner anywhere in a text searches onwards. -/
theorem searchesOnwards_of_le (place : Cursor.ofText text ≤ scanner.cursor) :
    scanner.SearchesOnwards text where
  ends := fun _ enough => nextWithin_eq_next enough
  onwards := scanner.le_next
  found := by
    intro start found
    obtain ⟨stands, again⟩ := next_next_of_found found
    have markup := startsMarkup_of_next found
    exact ⟨stands.symm, markup, fun _ => not_prefix_of_startsMarkup_mark markup, again⟩
  failed := by
    intro fault failed
    have ended : scanner.next.2.cursor.rest = [] := by
      refine rest_next_of_not_found fun start found => ?_
      rw [failed] at found
      cases found
    exact ⟨ended, Cursor.offset_eq_utf8ByteSize (Cursor.le_trans place scanner.le_next) ended⟩
  exhausted := by
    intro missing later
    exact next_of_rest_eq_nil (rest_afterCalls_eq_nil (rest_next_of_not_found missing) later)

/--
After any run of calls on a new scanner, in any order, each search for markup ends and goes onwards;
what it finds is markup and is found again, and once it fails or finds nothing no later one finds
anything.
-/
theorem searchesOnwards_afterCalls (text : String) (calls : List ScannerCall) :
    ((ofText text).afterCalls calls).SearchesOnwards text :=
  searchesOnwards_of_le ((ofText text).le_afterCalls calls)

end HostScanner
end EmbeddedMarkup
