import EmbeddedMarkup.Proofs.HostText.Tracking
import EmbeddedMarkup.Proofs.Text.Continuation

/-!
# Where one text ends and another one starts

A text is continued by a semicolon, a line break and the opening of host code, and then by another
text.  Whatever a scanner is in the middle of when the first text ends, it is out of it before the
second one starts: a semicolon ends every unit that the end of a text ends, except for a line
comment, which ends with its line, and inline text, which the opening of host code ends.
-/

namespace EmbeddedMarkup

variable {cs rest later label : List Char} {ch quote : Char} {p : Char → Bool} {start : Bool}
  {length : Nat}

/-! ## Units in front of a semicolon -/

theorem startsHostCode_semicolon : startsHostCode (cs ++ ';' :: later) = startsHostCode cs := by
  rw [startsHostCode, startsHostCode, isPrefixOf_stop (by decide), isPrefixOf_stop (by decide)]

theorem endsHostCode_semicolon : endsHostCode (cs ++ ';' :: later) = endsHostCode cs :=
  isPrefixOf_stop (by decide)

/--
What is ahead in a text, and what is ahead where the text goes on: the same, or a unit that the end
of the text ended.  `size` is the number of characters behind the first one.
-/
inductive SeamAhead (size : Nat) : HostAhead → HostAhead → Prop
  | markup : SeamAhead size .markup .markup
  | pass {unit : HostUnit} : unit.tail ≤ size → SeamAhead size (.pass unit) (.pass unit)
  /-- The unit takes the semicolon, and the line break unless it is a comment. -/
  | across {more : Nat} {onward : Bool} :
      more = 1 ∨ more = 2 →
      SeamAhead size (.pass ⟨size, onward⟩) (.pass ⟨size + more, onward⟩)
  | unterminated {cause : HostTextCause} {other : HostAhead} :
      SeamAhead size (.unterminated cause) other

theorem SeamAhead.ite
    {condition : Prop}
    [Decidable condition]
    {size : Nat}
    {ahead other ahead' other' : HostAhead}
    (yes : condition → SeamAhead size ahead other)
    (no : ¬condition → SeamAhead size ahead' other') :
    SeamAhead size (if condition then ahead else ahead') (if condition then other else other') := by
  split
  · exact yes ‹_›
  · exact no ‹_›

/-- The quote that opens a label closes it in the text or not at all. -/
theorem closingQuote_semicolon
    {quote : Option Char}
    {n : Nat}
    (other : quote ≠ some ';')
    (inside : n ≤ cs.length) :
    (quote.isSome && ((cs ++ ';' :: later).drop n).head? == quote) =
        (quote.isSome && (cs.drop n).head? == quote) ∧
      n + (if quote.isSome && (cs.drop n).head? == quote then 1 else 0) ≤ cs.length := by
  cases quote with
  | none => exact ⟨rfl, inside⟩
  | some ch =>
      have same := @head?_drop_stop cs later ch ';' _ (fun eq => other (congrArg some eq)) inside
      simp only [Option.isSome_some, Bool.true_and]
      refine ⟨by rw [Bool.eq_iff_iff, beq_iff_eq, beq_iff_eq, same], ?_⟩
      split
      · rename_i found
        rw [beq_iff_eq, List.head?_drop] at found
        exact (List.getElem?_eq_some_iff.mp found).1
      · exact inside

theorem openingQuote_semicolon {n : Nat} (stops : p ';' = false) (inside : n ≤ cs.length) :
    ((cs ++ ';' :: later).drop n).head?.filter p = (cs.drop n).head?.filter p ∧
      (cs.drop n).head?.filter p ≠ some ';' ∧
      n + ((cs.drop n).head?.filter p).toList.length ≤ cs.length := by
  rw [List.drop_append_of_le_length inside]
  cases ahead : cs.drop n with
  | nil => simpa [Option.filter, stops] using inside
  | cons ch more =>
      have fits := congrArg List.length ahead
      rw [List.length_drop, List.length_cons] at fits
      rw [List.cons_append, List.head?_cons, List.head?_cons, Option.filter]
      refine ⟨rfl, ?_⟩
      split
      · rename_i passes
        refine ⟨?_, ?_⟩
        · rintro same
          cases same
          rw [stops] at passes
          cases passes
        · change n + 1 ≤ cs.length
          omega
      · exact ⟨nofun, inside⟩

/-- A heredoc is closed in the text, or it is none. -/
theorem seamAhead_heredoc :
    SeamAhead (cs.length + 2) (heredocAhead cs) (heredocAhead (cs ++ ';' :: later)) := by
  obtain ⟨blanks, inside⟩ := @run_stop cs later ';' isInlineBlank 0 rfl (Nat.zero_le _)
  rw [List.drop_zero, List.drop_zero] at blanks
  rw [Nat.zero_add, List.drop_zero] at inside
  obtain ⟨quote, other, inside⟩ := @openingQuote_semicolon cs later
    (fun c => c == '"' || c == '\'') _ rfl inside
  obtain ⟨label, inside'⟩ := @run_stop cs later ';' isIdentifierChar _ rfl inside
  obtain ⟨closing, inside''⟩ := @closingQuote_semicolon cs later _ _ other inside'
  unfold heredocAhead
  rw [blanks]
  dsimp only
  rw [quote, label, closing, List.drop_append_of_le_length inside'']
  split
  · exact .pass (Nat.add_le_add_right inside 2)
  · split
    · rename_i length closed
      obtain ⟨same, fits⟩ :=
        (@heredocTail?_stop _ later _ ';' _ (not_mem_takeWhile rfl) rfl rfl).mpr closed
      rw [same]
      rw [List.length_drop] at fits
      refine .pass ?_
      dsimp only
      omega
    · exact .unterminated

/-- A line comment ends with its line at the latest. -/
theorem lineCommentLength_seam :
    lineCommentLength cs ≤ cs.length ∧
      (lineCommentLength (cs ++ ';' :: '\n' :: later) = lineCommentLength cs ∨
        lineCommentLength cs = cs.length ∧
          lineCommentLength (cs ++ ';' :: '\n' :: later) = cs.length + 1) := by
  induction cs with
  | nil => exact ⟨Nat.le_refl 0, .inr ⟨rfl, rfl⟩⟩
  | cons ch rest ih =>
      obtain ⟨fits, goesOn⟩ := ih
      have ends : endsHostCode (ch :: (rest ++ ';' :: '\n' :: later)) = endsHostCode (ch :: rest) :=
        @endsHostCode_semicolon (ch :: rest) _
      rw [List.cons_append, lineCommentLength, lineCommentLength, ends, List.length_cons]
      split
      · exact ⟨Nat.zero_le _, .inl rfl⟩
      · omega

/-- Inline text ends where host code opens. -/
theorem inlineTextLength_seam (opens : startsHostCode later = true) :
    inlineTextLength cs ≤ cs.length ∧
      (inlineTextLength (cs ++ ';' :: '\n' :: later) = inlineTextLength cs ∨
        inlineTextLength cs = cs.length ∧
          inlineTextLength (cs ++ ';' :: '\n' :: later) = cs.length + 2) := by
  induction cs with
  | nil =>
      have ended : inlineTextLength later = 0 := by
        cases later with
        | nil => rfl
        | cons next later => rw [inlineTextLength, if_pos opens]
      have outside : inlineTextLength (';' :: '\n' :: later) = 2 := by
        rw [inlineTextLength, inlineTextLength, ended]
        rfl
      exact ⟨Nat.le_refl 0, .inr ⟨rfl, outside⟩⟩
  | cons ch rest ih =>
      obtain ⟨fits, goesOn⟩ := ih
      have starts : startsHostCode (ch :: (rest ++ ';' :: '\n' :: later)) =
          startsHostCode (ch :: rest) :=
        @startsHostCode_semicolon (ch :: rest) _
      rw [List.cons_append, inlineTextLength, inlineTextLength, starts, List.length_cons]
      split
      · exact ⟨Nat.zero_le _, .inl rfl⟩
      · omega

theorem seamAhead_inlineText (opens : startsHostCode later = true) (more : 1 ≤ rest.length) :
    SeamAhead rest.length (.pass ⟨inlineTextLength (rest.drop 1) + 1, true⟩)
      (.pass ⟨inlineTextLength ((rest ++ ';' :: '\n' :: later).drop 1) + 1, true⟩) := by
  obtain ⟨fits, goesOn⟩ := @inlineTextLength_seam (rest.drop 1) later opens
  rw [List.drop_append_of_le_length more]
  rw [List.length_drop] at fits goesOn
  rcases goesOn with same | ⟨whole, across⟩
  · rw [same]
    exact .pass (by dsimp only; omega)
  · rw [whole, across, Nat.sub_add_cancel more,
      show rest.length - 1 + 2 + 1 = rest.length + 2 by omega]
    exact .across (.inr rfl)

theorem seamAhead_lineComment :
    SeamAhead rest.length (.pass ⟨lineCommentLength rest, start⟩)
      (.pass ⟨lineCommentLength (rest ++ ';' :: '\n' :: later), start⟩) := by
  obtain ⟨fits, same | ⟨whole, across⟩⟩ := @lineCommentLength_seam rest later
  · rw [same]
    exact .pass fits
  · rw [whole, across]
    exact .across (.inl rfl)

theorem seamAhead_comment (more : 1 ≤ rest.length) :
    SeamAhead rest.length (commentAhead start (rest.drop 1))
      (commentAhead start ((rest ++ ';' :: later).drop 1)) := by
  rw [List.drop_append_of_le_length more]
  unfold commentAhead
  split
  · rename_i length closed
    have fits := length_blockCommentTail?_le closed
    rw [blockCommentTail?_append closed]
    rw [List.length_drop] at fits
    exact .pass (by dsimp only; omega)
  · exact .unterminated

theorem seamAhead_string (plain : quote ≠ '\\') :
    SeamAhead rest.length (stringAhead quote rest) (stringAhead quote (rest ++ ';' :: later)) := by
  unfold stringAhead
  split
  · rename_i length closed
    rw [quotedTail?_append plain closed]
    exact .pass (length_quotedTail?_le plain closed)
  · exact .unterminated

theorem seamAhead_run {onward : Bool} (stops : p ';' = false) :
    SeamAhead rest.length (.pass ⟨(rest.takeWhile p).length, onward⟩)
      (.pass ⟨((rest ++ ';' :: later).takeWhile p).length, onward⟩) := by
  rw [takeWhile_stop stops]
  exact .pass (List.takeWhile_prefix p).length_le

theorem seamAhead_word :
    SeamAhead rest.length (wordAhead ch rest) (wordAhead ch (rest ++ ';' :: later)) := by
  unfold wordAhead
  rw [takeWhile_stop rfl]
  exact .pass (List.takeWhile_prefix _).length_le

theorem seamAhead_cast {condition : Bool} :
    SeamAhead rest.length
      (match if condition then castTail? rest else none with
        | some length => .pass ⟨length, true⟩
        | none => .pass ⟨0, true⟩)
      (match if condition then castTail? (rest ++ ';' :: later) else none with
        | some length => .pass ⟨length, true⟩
        | none => .pass ⟨0, true⟩) := by
  obtain ⟨same, fits⟩ := @castTail?_stop rest later ';' rfl rfl (by decide)
  rw [same]
  split
  · rename_i length found
    cases condition with
    | false => cases found
    | true => exact .pass (fits length found)
  · exact .pass (Nat.zero_le _)

/-- Where the text goes on, a unit is the same, or the seam is in it. -/
theorem seamAhead_hostAhead {first : Char} (opens : startsHostCode later = true) :
    SeamAhead rest.length (hostAhead start first rest)
      (hostAhead start first (rest ++ ';' :: '\n' :: later)) := by
  have prefixed {text : String} (plain : ';' ∉ text.toList) :
      text.toList.isPrefixOf (first :: (rest ++ ';' :: '\n' :: later)) =
        text.toList.isPrefixOf (first :: rest) :=
    @isPrefixOf_stop (first :: rest) _ _ _ plain
  have markup : startsMarkup (first :: (rest ++ ';' :: '\n' :: later)) =
      startsMarkup (first :: rest) :=
    startsMarkup_stop rfl rfl
  have ends : endsHostCode (first :: (rest ++ ';' :: '\n' :: later)) =
      endsHostCode (first :: rest) :=
    @endsHostCode_semicolon (first :: rest) _
  have sign : ((first == '+' || first == '-') &&
      (rest ++ ';' :: '\n' :: later).head? == some first) =
        ((first == '+' || first == '-') && rest.head? == some first) := by
    by_cases semicolon : first = ';'
    · subst semicolon
      rfl
    · rw [Bool.eq_iff_iff, Bool.and_eq_true, Bool.and_eq_true, beq_iff_eq, beq_iff_eq,
        head?_stop semicolon]
  have longer {text : List Char} (ahead : text.isPrefixOf (first :: rest) = true) :
      text.length ≤ rest.length + 1 :=
    (List.isPrefixOf_iff_prefix.mp ahead).length_le
  unfold hostAhead
  dsimp only
  rw [prefixed (by decide), prefixed (by decide), prefixed (by decide), prefixed (by decide),
    prefixed (by decide), markup, ends, sign]
  refine .ite (fun ahead => .pass (Nat.le_of_succ_le_succ (longer ahead))) fun _ => ?_
  refine .ite (fun ahead => .pass (Nat.le_of_succ_le_succ (longer ahead))) fun _ => ?_
  refine .ite (fun ahead => ?_) fun _ => ?_
  · have fits : 2 ≤ rest.length := Nat.le_of_succ_le_succ (longer ahead)
    have heredoc := @seamAhead_heredoc (rest.drop 2) ('\n' :: later)
    rw [List.length_drop, Nat.sub_add_cancel fits] at heredoc
    rw [List.drop_append_of_le_length fits]
    exact heredoc
  refine .ite (fun _ => .markup) fun _ => ?_
  refine .ite (fun ahead => seamAhead_inlineText opens (Nat.le_of_succ_le_succ (longer ahead)))
    fun _ => ?_
  refine .ite (fun _ => seamAhead_lineComment) fun _ => ?_
  refine .ite (fun ahead => seamAhead_comment (Nat.le_of_succ_le_succ (longer ahead))) fun _ => ?_
  refine .ite (fun quote => seamAhead_string ?_) fun _ => ?_
  · rintro rfl
    cases quote
  refine .ite (fun _ => seamAhead_run rfl) fun _ => ?_
  refine .ite (fun _ => seamAhead_run rfl) fun _ => ?_
  refine .ite (fun _ => seamAhead_word) fun _ => ?_
  refine .ite (fun _ => .pass (Nat.zero_le _)) fun _ => ?_
  refine .ite (fun signed => ?_) fun _ => ?_
  · obtain ⟨more, ahead⟩ := List.head?_eq_some_iff.mp
      (beq_iff_eq.mp (Bool.and_eq_true_iff.mp signed).2)
    refine .pass ?_
    rw [ahead]
    exact Nat.succ_pos _
  · exact seamAhead_cast

/-! ## Scanners at a seam -/

namespace HostScanner

variable {c : Cursor} {scanner : HostScanner}

/-- Blank space is skipped, whatever may start behind it. -/
theorem next_blank (ahead : c.rest = ch :: rest) (blank : isBlank ch = true) :
    next ⟨c, start⟩ = next ⟨c.advance, start⟩ := by
  have passes : c.Passes [ch] c.advance :=
    Cursor.passes_singleton.mpr ⟨Cursor.peek?_eq_some_iff.mpr ⟨rest, ahead⟩, rfl⟩
  rw [← next_skipBlanks, passes.skipBlanks_eq (List.forall_mem_singleton.mpr blank),
    next_skipBlanks]

/-- Where host code opens, it does not matter whether an expression may start. -/
theorem next_of_startsHostCode (opens : startsHostCode c.rest = true) :
    next ⟨c, start⟩ = next ⟨c, true⟩ := by
  obtain ⟨rest, ahead⟩ : ∃ rest, c.rest = '<' :: rest := by
    rcases Bool.or_eq_true_iff.mp opens with long | short
    · obtain ⟨more, same⟩ := List.isPrefixOf_iff_prefix.mp long
      exact ⟨_, same.symm⟩
    · obtain ⟨more, same⟩ := List.isPrefixOf_iff_prefix.mp short
      exact ⟨_, same.symm⟩
  obtain ⟨length, pass⟩ : ∃ length, ∀ start, hostAhead start '<' rest = .pass ⟨length, true⟩ := by
    rw [ahead] at opens
    by_cases long : "<?php".toList.isPrefixOf ('<' :: rest) = true
    · exact ⟨4, fun start => by rw [hostAhead]; exact if_pos long⟩
    · have short := (Bool.or_eq_true_iff.mp opens).resolve_left long
      exact ⟨2, fun start => by rw [hostAhead]; exact (if_neg long).trans (if_pos short)⟩
  rw [next_pass ahead rfl (pass start), next_pass ahead rfl (pass true)]

/-- The scanner where more text follows. -/
def followedBy (scanner : HostScanner) (more : List Char) : HostScanner :=
  ⟨scanner.cursor.followedBy more, scanner.expressionStart⟩

theorem skipBlanks_followedBy :
    (scanner.followedBy (';' :: later)).cursor.skipBlanks =
      scanner.cursor.skipBlanks.followedBy (';' :: later) :=
  Cursor.skipBlanks_followedBy

theorem rest_skipBlanks_followedBy
    {first : Char}
    (ahead : scanner.cursor.skipBlanks.rest = first :: rest) :
    (scanner.followedBy (';' :: later)).cursor.skipBlanks.rest =
      first :: (rest ++ ';' :: later) := by
  rw [skipBlanks_followedBy, Cursor.rest_followedBy, ahead, List.cons_append]

/-- In front of a seam a scanner passes it. -/
theorem next_seam (ended : c.rest = []) :
    next ⟨c.followedBy (';' :: '\n' :: later), start⟩ =
      next ⟨(c.followedBy (';' :: '\n' :: later)).advanceBy 2, true⟩ := by
  have ahead : (c.followedBy (';' :: '\n' :: later)).rest = ';' :: '\n' :: later := by
    rw [Cursor.rest_followedBy, ended, List.nil_append]
  have pass : hostAhead start ';' ('\n' :: later) = .pass ⟨0, true⟩ := by
    cases start <;> rfl
  have behind : ((c.followedBy (';' :: '\n' :: later)).advanceBy 1).rest = '\n' :: later := by
    rw [Cursor.rest_advanceBy, ahead]
    rfl
  rw [next_pass ahead rfl pass, next_blank behind rfl]
  rfl

/-- In the middle of a seam, too, a scanner comes out of it. -/
theorem next_inside_seam
    {more : Nat}
    (ended : c.rest = [])
    (opens : startsHostCode later = true)
    (inside : more = 1 ∨ more = 2) :
    next ⟨(c.followedBy (';' :: '\n' :: later)).advanceBy more, start⟩ =
      next ⟨(c.followedBy (';' :: '\n' :: later)).advanceBy 2, true⟩ := by
  have ahead (n : Nat) : ((c.followedBy (';' :: '\n' :: later)).advanceBy n).rest =
      (';' :: '\n' :: later).drop n := by
    rw [Cursor.rest_advanceBy, Cursor.rest_followedBy, ended, List.nil_append]
  have opened : startsHostCode ((c.followedBy (';' :: '\n' :: later)).advanceBy 2).rest = true := by
    rw [ahead]
    exact opens
  rcases inside with rfl | rfl
  · rw [next_blank (ahead 1) rfl, Cursor.advance_eq_advanceBy, Cursor.advanceBy_advanceBy,
      next_of_startsHostCode opened]
  · rw [next_of_startsHostCode opened]

/-- What a scanner finds in a text it finds where the text goes on; then it passes the seam. -/
theorem next_followedBy (opens : startsHostCode later = true) (scanner : HostScanner) :
    match scanner.next.1 with
    | .error _ => True
    | .ok (some found) =>
        (scanner.followedBy (';' :: '\n' :: later)).next.1 =
          .ok (some (found.followedBy (';' :: '\n' :: later)))
    | .ok none =>
        (scanner.followedBy (';' :: '\n' :: later)).next =
          next ⟨((scanner.cursor.advanceBy scanner.cursor.size).followedBy
            (';' :: '\n' :: later)).advanceBy 2, true⟩ := by
  fun_induction next scanner with
  | case1 scanner here ended =>
      have whole : scanner.cursor.advanceBy scanner.cursor.size = here := by
        rw [← Cursor.advanceBy_size_of_le scanner.cursor.le_skipBlanks]
        exact Cursor.advanceBy_of_rest_eq_nil ended _
      dsimp only
      rw [whole, ← next_seam ended, ← skipBlanks_followedBy, next_skipBlanks]
  | case2 scanner here first rest ahead markup =>
      have seam := @seamAhead_hostAhead rest later scanner.expressionStart first opens
      rw [markup] at seam
      generalize found :
        hostAhead scanner.expressionStart first (rest ++ ';' :: '\n' :: later) = other at seam
      cases seam with
      | markup =>
          dsimp only
          rw [next_of_markup (rest_skipBlanks_followedBy ahead) found, skipBlanks_followedBy]
  | case3 scanner here first rest ahead unit pass ih =>
      have seam := @seamAhead_hostAhead rest later scanner.expressionStart first opens
      rw [pass] at seam
      generalize found :
        hostAhead scanner.expressionStart first (rest ++ ';' :: '\n' :: later) = other at seam
      have size : here.size = rest.length + 1 := congrArg List.length ahead
      have reached := Cursor.le_trans scanner.cursor.le_skipBlanks
        (Cursor.le_advanceBy here (unit.tail + 1))
      rw [Cursor.advanceBy_size_of_le reached] at ih
      cases seam with
      | pass fits =>
          rw [next_of_pass (rest_skipBlanks_followedBy ahead) found, skipBlanks_followedBy,
            Cursor.advanceBy_followedBy (by change _ ≤ here.size; omega)]
          exact ih
      | @across more onward crossed =>
          have ended : (here.advanceBy (rest.length + 1)).rest = [] := by
            rw [Cursor.rest_advanceBy, ahead]
            exact List.drop_length
          have nothing : (here.advanceBy (rest.length + 1)).skipBlanks.rest = [] := by
            rw [Cursor.rest_skipBlanks, ended]
            rfl
          have whole : scanner.cursor.advanceBy scanner.cursor.size =
              here.advanceBy (rest.length + 1) := by
            rw [← Cursor.advanceBy_size_of_le scanner.cursor.le_skipBlanks, ← size]
          rw [next_of_ended nothing]
          dsimp only
          rw [next_of_pass (rest_skipBlanks_followedBy ahead) found, skipBlanks_followedBy, whole,
            Nat.add_right_comm, ← Cursor.advanceBy_advanceBy,
            Cursor.advanceBy_followedBy (Nat.le_of_eq size.symm)]
          exact next_inside_seam ended opens crossed
  | case4 => trivial

end HostScanner

end EmbeddedMarkup
