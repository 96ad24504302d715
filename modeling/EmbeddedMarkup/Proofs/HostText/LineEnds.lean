import EmbeddedMarkup.Proofs.HostText.Bodies
import EmbeddedMarkup.Proofs.Text.LineEnds

/-!
# Units of host text and line ends

A unit of host text takes the same characters however the line ends in it are written.  Only a
heredoc looks for line feeds, and of a pair it finds the second character.
-/

namespace EmbeddedMarkup

/-- What is ahead, where a unit takes another number of characters behind its first. -/
def HostAhead.map (f : Nat → Nat) : HostAhead → HostAhead
  | .markup => .markup
  | .pass unit => .pass { unit with tail := f unit.tail }
  | .unterminated cause => .unterminated cause

/-- A choice is mapped in both of its branches. -/
theorem HostAhead.ite_eq_map
    {f : Nat → Nat}
    {condition : Prop}
    [Decidable condition]
    {yes yes' no no' : HostAhead}
    (then_ : condition → yes' = yes.map f)
    (else_ : ¬condition → no' = no.map f) :
    (if condition then yes' else no') = (if condition then yes else no).map f := by
  split
  · exact then_ ‹_›
  · exact else_ ‹_›

/-- The first `n` characters of a text stand in its first line. -/
structure WithinLine (cs : List Char) (n : Nat) : Prop where
  le_length : n ≤ cs.length
  inLine : InLine (cs.take n)

variable {ends : LineEnds} {cs rest text label : List Char} {first ch quote : Char} {m n : Nat}
  {p : Char → Bool} {start : Bool}

theorem withinLine_of_opens (opens : text <+: cs) (inLine : InLine text) :
    WithinLine cs text.length :=
  ⟨opens.length_le, by rwa [← List.prefix_iff_eq_take.mp opens]⟩

theorem withinLine_takeWhile (feed : p '\n' = false) (blind : LineBlind p) :
    WithinLine cs (cs.takeWhile p).length :=
  withinLine_of_opens (List.takeWhile_prefix p) (inLine_takeWhile feed blind)

theorem withinLine_of_head? (ahead : cs.head? = some ch) (inLine : isLineEnd ch = false) :
    WithinLine cs 1 := by
  obtain ⟨more, rfl⟩ := List.head?_eq_some_iff.mp ahead
  exact withinLine_of_opens (List.prefix_append [ch] more)
    (inLine_cons.mpr ⟨inLine, List.forall_mem_nil _⟩)

namespace WithinLine

theorem add (within : WithinLine cs m) (onward : WithinLine (cs.drop m) n) :
    WithinLine cs (m + n) := by
  refine ⟨?_, ?_⟩
  · have fits := onward.le_length
    rw [List.length_drop] at fits
    have := within.le_length
    omega
  · rw [List.take_add]
    exact List.forall_mem_append.mpr ⟨within.inLine, onward.inLine⟩

theorem reach_eq (within : WithinLine cs n) : ends.reach cs n = n := by
  rw [LineEnds.reach, LineEnds.write_of_inLine within.inLine,
    List.length_take_of_le within.le_length]

theorem reach_add (within : WithinLine cs m) :
    ends.reach cs (m + n) = m + ends.reach (cs.drop m) n := by
  rw [LineEnds.reach_add, within.reach_eq]

theorem drop_write (within : WithinLine cs n) :
    (ends.write cs).drop n = ends.write (cs.drop n) := by
  have dropped := @LineEnds.drop_write ends cs n
  rwa [within.reach_eq] at dropped

end WithinLine

namespace LineEnds

/-! ## Strings, comments and inline text -/

/-- A backslash escapes a line end whole, also where it is a pair. -/
theorem quotedTail?_escape (isQuote : isLineEnd quote = false) :
    quotedTail? quote ('\\' :: (ends.spell ch ++ text)) =
      (quotedTail? quote text).map (· + ((ends.spell ch).length + 1)) := by
  by_cases feed : ch = '\n'
  · subst feed
    rcases ends.spell_feed with spelled | spelled <;> rw [spelled]
    · rfl
    · have noFeed := (isLineEnd_eq_false_iff.mp isQuote).1
      rw [List.cons_append, quotedTail?, List.singleton_append,
        quotedTail?_cons (by decide) noFeed.symm, Option.map_map]
      rfl
  · rw [spell_of_ne feed]
    rfl

/-- A string takes the same characters. -/
theorem quotedTail?_write (isQuote : isLineEnd quote = false) :
    quotedTail? quote (ends.write cs) = (quotedTail? quote cs).map (ends.reach cs) := by
  obtain ⟨noFeed, noReturn⟩ := isLineEnd_eq_false_iff.mp isQuote
  have skips (ch : Char) (cs : List Char) (ended : isLineEnd ch = true) :
      quotedTail? quote (ch :: cs) = (quotedTail? quote cs).map (· + 1) := by
    refine quotedTail?_cons ?_ ?_
    · rintro rfl
      cases ended
    · rintro rfl
      rw [isQuote] at ended
      cases ended
  fun_induction quotedTail? quote cs with
  | case1 => rfl
  | case2 =>
      rw [write_cons_of_ne (by decide)]
      rfl
  | case3 escaped rest ih =>
      rw [write_cons_of_ne (by decide), write_cons, quotedTail?_escape isQuote, ih, Option.map_map,
        Option.map_map]
      refine congrArg (Option.map · _) (funext fun n => ?_)
      rw [Function.comp, Function.comp, reach_cons_succ_of_ne (by decide), reach_cons_succ]
      omega
  | case4 rest plain escape =>
      rw [write_cons_of_ne noFeed, quotedTail?_of_closing, Option.map_some,
        reach_cons_succ_of_ne noFeed, reach_zero]
      rintro rfl
      cases rest with
      | nil => exact plain rfl rfl
      | cons next more => exact escape next more rfl rfl
  | case5 ch rest plain escape open_ ih =>
      rw [write_cons, Option.map_map]
      by_cases feed : ch = '\n'
      · subst feed
        rw [tail_spell_feed skips, ih, Option.map_map]
        refine congrArg (Option.map · _) (funext fun n => ?_)
        rw [Function.comp, Function.comp, reach_cons_succ, Nat.add_comm]
      · have visible : ch ≠ '\\' := by
          rintro rfl
          cases rest with
          | nil => exact plain rfl rfl
          | cons next more => exact escape next more rfl rfl
        rw [spell_of_ne feed, List.singleton_append, quotedTail?_cons visible open_, ih,
          Option.map_map]
        refine congrArg (Option.map · _) (funext fun n => ?_)
        rw [Function.comp, Function.comp, reach_cons_succ_of_ne feed]

/-- A line comment takes the same characters. -/
theorem lineCommentLength_write :
    lineCommentLength (ends.write cs) = ends.reach cs (lineCommentLength cs) := by
  induction cs with
  | nil => rfl
  | cons ch rest ih =>
      by_cases feed : ch = '\n'
      · subst feed
        rw [write_cons]
        rcases ends.spell_feed with spelled | spelled <;> rw [spelled] <;> rfl
      · have closing : endsHostCode (ch :: ends.write rest) = endsHostCode (ch :: rest) := by
          rw [← write_cons_of_ne feed, endsHostCode, isPrefixOf_write (by decide)]
          rfl
        rw [write_cons_of_ne feed, lineCommentLength, lineCommentLength, closing]
        split
        · rfl
        · rw [ih, reach_cons_succ_of_ne feed]

/-- Inline text takes the same characters. -/
theorem inlineTextLength_write :
    inlineTextLength (ends.write cs) = ends.reach cs (inlineTextLength cs) := by
  induction cs with
  | nil => rfl
  | cons ch rest ih =>
      by_cases feed : ch = '\n'
      · subst feed
        have plain (ch : Char) (rest : List Char) (ended : isLineEnd ch = true) :
            inlineTextLength (ch :: rest) = inlineTextLength rest + 1 := by
          simp only [isLineEnd, Bool.or_eq_true, beq_iff_eq] at ended
          rcases ended with rfl | rfl <;> rfl
        rw [write_cons, plain _ _ rfl, reach_cons_succ, ← ih]
        rcases ends.spell_feed with spelled | spelled <;> rw [spelled]
        · rw [List.singleton_append, plain _ _ rfl, List.length_singleton, Nat.add_comm]
        · rw [List.cons_append, List.singleton_append, plain _ _ rfl, plain _ _ rfl]
          simp only [List.length_cons, List.length_nil]
          omega
      · have opening : startsHostCode (ch :: ends.write rest) = startsHostCode (ch :: rest) := by
          rw [← write_cons_of_ne feed, startsHostCode, isPrefixOf_write (by decide),
            isPrefixOf_write (by decide)]
          rfl
        rw [write_cons_of_ne feed, inlineTextLength, inlineTextLength, opening]
        split
        · rfl
        · rw [ih, reach_cons_succ_of_ne feed]

/-! ## Heredocs -/

theorem isLabelAhead_write (inLine : InLine label) :
    isLabelAhead label (ends.write cs) = isLabelAhead label cs := by
  rw [isLabelAhead, isLabelAhead, isPrefixOf_write inLine]
  cases opens : label.isPrefixOf cs with
  | false => rfl
  | true =>
      have within := withinLine_of_opens (List.isPrefixOf_iff_prefix.mp opens) inLine
      rw [within.drop_write, map_head?_write (by rfl)]

/-- The line feed in a line end is where a line of a heredoc ends. -/
theorem heredocTail?_spell_feed :
    heredocTail? label (ends.spell '\n' ++ text) =
      (heredocTail? label ('\n' :: text)).map (· + ((ends.spell '\n').length - 1)) := by
  rcases ends.spell_feed with spelled | spelled <;> rw [spelled]
  · exact (congrFun Option.map_id _).symm
  · exact heredocTail?_line ['\r'] (by decide)

/-- A heredoc takes the same characters, since its label stands in a line. -/
theorem heredocTail?_write (inLine : InLine label) :
    heredocTail? label (ends.write cs) = (heredocTail? label cs).map (ends.reach cs) := by
  induction cs with
  | nil => rfl
  | cons ch rest ih =>
      have spelled := @length_spell_pos ends ch
      by_cases feed : ch = '\n'
      · subst feed
        rw [write_cons, heredocTail?_spell_feed, heredocTail?_feed, heredocTail?_feed,
          dropWhile_write (by rfl), isLabelAhead_write inLine,
          takeWhile_write_inLine (by rfl) (by rfl)]
        split
        · rename_i closed
          have blanks : WithinLine rest (rest.takeWhile isInlineBlank).length :=
            withinLine_takeWhile rfl rfl
          have named :
              WithinLine (rest.drop (rest.takeWhile isInlineBlank).length) label.length := by
            obtain ⟨more, ahead, -⟩ := isLabelAhead_iff.mp closed
            rw [drop_length_takeWhile, ahead]
            exact withinLine_of_opens (List.prefix_append label more) inLine
          have taken := @WithinLine.reach_eq ends _ _ (blanks.add named)
          rw [Option.map_some, Option.map_some, Nat.add_assoc 1, Nat.add_comm 1, reach_cons_succ,
            taken]
          congr 1
          omega
        · rw [ih, Option.map_map, Option.map_map, Option.map_map]
          refine congrArg (Option.map · _) (funext fun n => ?_)
          simp only [Function.comp, reach_cons_succ]
          omega
      · rw [write_cons_of_ne feed]
        have line (text : List Char) :
            heredocTail? label (ch :: text) = (heredocTail? label text).map (· + 1) :=
          heredocTail?_line [ch] fun member => feed (List.mem_singleton.mp member).symm
        rw [line, line, ih, Option.map_map, Option.map_map]
        refine congrArg (Option.map · _) (funext fun n => ?_)
        rw [Function.comp, Function.comp, reach_cons_succ_of_ne feed]

/-- Two characters in a line in front of a text take two. -/
theorem reach_marks : ends.reach ('<' :: '<' :: cs) (n + 2) = ends.reach cs n + 2 := by
  rw [reach_cons_succ_of_ne (by decide), reach_cons_succ_of_ne (by decide)]

theorem linesAhead_write (inLine : InLine label) (within : WithinLine cs n) :
    linesAhead label n (ends.write cs) =
      (linesAhead label n cs).map (ends.reach ('<' :: '<' :: cs)) := by
  rw [linesAhead, linesAhead, within.drop_write, heredocTail?_write inLine]
  cases heredocTail? label (cs.drop n) with
  | none => rfl
  | some length =>
      rw [Option.map_some, HostAhead.map, reach_marks, within.reach_add]

theorem labelAhead_write
    {quote : Option Char}
    (isQuote : ∀ ch, quote = some ch → isLineEnd ch = false)
    (within : WithinLine cs n) :
    labelAhead quote n (ends.write cs) =
      (labelAhead quote n cs).map (ends.reach ('<' :: '<' :: cs)) := by
  have named : WithinLine (cs.drop n) ((cs.drop n).takeWhile isIdentifierChar).length :=
    withinLine_takeWhile rfl rfl
  have whole := within.add named
  have closes : ((quote.isSome && (ends.write (cs.drop (n + ((cs.drop n).takeWhile
      isIdentifierChar).length))).head? == quote) = true) ↔
      (quote.isSome && (cs.drop (n + ((cs.drop n).takeWhile isIdentifierChar).length)).head? ==
        quote) = true := by
    cases quote with
    | none => rfl
    | some ch =>
        simp only [Option.isSome_some, Bool.true_and, beq_iff_eq]
        exact head?_write_eq_some_iff (isQuote ch rfl)
  unfold labelAhead
  dsimp only
  rw [within.drop_write, takeWhile_write_inLine (by rfl) (by rfl), whole.drop_write]
  split
  · rw [HostAhead.map, reach_marks, within.reach_eq]
  · simp only [closes]
    split
    · rename_i closing
      refine linesAhead_write (inLine_takeWhile rfl rfl) (whole.add ?_)
      obtain ⟨quoted, same⟩ := Bool.and_eq_true_iff.mp closing
      obtain ⟨ch, rfl⟩ := Option.isSome_iff_exists.mp quoted
      exact withinLine_of_head? (beq_iff_eq.mp same) (isQuote ch rfl)
    · exact linesAhead_write (inLine_takeWhile rfl rfl) whole

/-- A heredoc is the same, or there is none, behind its three marks. -/
theorem heredocAhead_write :
    heredocAhead (ends.write cs) =
      (heredocAhead cs).map (ends.reach ('<' :: '<' :: cs)) := by
  have blanks : WithinLine cs (cs.takeWhile isInlineBlank).length := withinLine_takeWhile rfl rfl
  have isQuote {ch : Char} (quoted : (ch == '"' || ch == '\'') = true) : isLineEnd ch = false := by
    simp only [Bool.or_eq_true, beq_iff_eq] at quoted
    rcases quoted with rfl | rfl <;> rfl
  have quotes : ((ends.write (cs.drop (cs.takeWhile isInlineBlank).length)).head?.filter
        fun c => c == '"' || c == '\'') =
      (cs.drop (cs.takeWhile isInlineBlank).length).head?.filter
        fun c => c == '"' || c == '\'' := by
    refine Option.ext fun ch => ?_
    rw [Option.filter_eq_some_iff, Option.filter_eq_some_iff]
    exact and_congr_left fun quoted => head?_write_eq_some_iff (isQuote quoted)
  rw [heredocAhead_eq_labelAhead, heredocAhead_eq_labelAhead]
  dsimp only
  rw [takeWhile_write_inLine (by rfl) (by rfl), blanks.drop_write, quotes]
  refine labelAhead_write
    (fun ch found => isQuote (Option.filter_eq_some_iff.mp found).2) (blanks.add ?_)
  cases found : (cs.drop (cs.takeWhile isInlineBlank).length).head?.filter
      fun c => c == '"' || c == '\'' with
  | none => exact ⟨Nat.zero_le _, List.forall_mem_nil _⟩
  | some ch =>
      obtain ⟨ahead, quoted⟩ := Option.filter_eq_some_iff.mp found
      exact withinLine_of_head? ahead (isQuote quoted)

/-! ## Casts -/

/-- A cast takes the same characters. -/
theorem castTail?_write : castTail? (ends.write cs) = (castTail? cs).map (ends.reach cs) := by
  have before : WithinLine cs (cs.takeWhile isInlineBlank).length := withinLine_takeWhile rfl rfl
  have behind := before.add (withinLine_takeWhile (p := isIdentifierChar) rfl rfl)
  have after := behind.add (withinLine_takeWhile (p := isInlineBlank) rfl rfl)
  unfold castTail?
  dsimp only
  rw [takeWhile_write_inLine (by rfl) (by rfl), before.drop_write,
    takeWhile_write_inLine (by rfl) (by rfl), behind.drop_write,
    takeWhile_write_inLine (by rfl) (by rfl), after.drop_write]
  simp only [@head?_write_eq_some_iff ends ')' _ rfl]
  split
  · rename_i closed
    have ahead := of_decide_eq_true (Bool.and_eq_true_iff.mp closed).1
    exact congrArg some (after.add (withinLine_of_head? ahead rfl)).reach_eq.symm
  · rfl

/-! ## What is ahead -/

/-- A mark in a line takes as many characters as it has. -/
theorem reach_of_mark
    {mark : String}
    (opens : mark.toList.isPrefixOf (first :: rest) = true)
    (inLine : InLine mark.toList)
    (length : mark.toList.length = n + 1) :
    ends.reach rest n = n := by
  have taken := @reach_of_opens ends _ _ (List.isPrefixOf_iff_prefix.mp opens) inLine
  obtain ⟨ch, more, spelled⟩ := List.exists_cons_of_length_eq_add_one length
  have visible : first ≠ '\n' := by
    rw [spelled] at opens inLine
    rw [← (List.cons_prefix_cons.mp (List.isPrefixOf_iff_prefix.mp opens)).1]
    exact ne_feed_of_isLineEnd (inLine_cons.mp inLine).1
  rw [length, reach_cons_succ_of_ne visible] at taken
  exact Nat.succ.inj taken

/-- A block comment takes the same characters, of which the first one is the star that opens it. -/
theorem commentAhead_write :
    commentAhead start (ends.write cs) =
      (commentAhead start cs).map (ends.reach ('*' :: cs)) := by
  rw [commentAhead, commentAhead, blockCommentTail?_write]
  cases blockCommentTail? cs with
  | none => rfl
  | some length => rw [Option.map_some, HostAhead.map, reach_cons_succ_of_ne (by decide)]

/-- A unit takes the same characters, and the same comes behind it. -/
theorem hostAhead_write (inLine : isLineEnd first = false) :
    hostAhead start first (ends.write rest) =
      (hostAhead start first rest).map (ends.reach rest) := by
  have noFeed := ne_feed_of_isLineEnd inLine
  have marked (mark : String) (isLine : InLine mark.toList) :
      mark.toList.isPrefixOf (first :: ends.write rest) =
        mark.toList.isPrefixOf (first :: rest) := by
    rw [← write_cons_of_ne noFeed, isPrefixOf_write isLine]
  have closing : endsHostCode (first :: ends.write rest) = endsHostCode (first :: rest) :=
    marked "?>" (by decide)
  have markup : startsMarkup (first :: ends.write rest) = startsMarkup (first :: rest) := by
    rw [← write_cons_of_ne noFeed, startsMarkup_write]
  have run (p : Char → Bool) (feed : p '\n' = false) (blind : LineBlind p) (next : Bool) :
      HostAhead.pass ⟨((ends.write rest).takeWhile p).length, next⟩ =
        (HostAhead.pass ⟨(rest.takeWhile p).length, next⟩).map (ends.reach rest) := by
    rw [takeWhile_write_inLine feed blind, HostAhead.map, reach_takeWhile_inLine feed blind]
  have doubled : ((ends.write rest).head? == some first) = (rest.head? == some first) := by
    rw [Bool.eq_iff_iff, beq_iff_eq, beq_iff_eq, head?_write_eq_some_iff inLine]
  unfold hostAhead
  dsimp only
  rw [marked "<?php" (by decide), marked "<?=" (by decide), marked "<<<" (by decide),
    marked "//" (by decide), marked "/*" (by decide), markup, closing, doubled]
  refine HostAhead.ite_eq_map (fun opens => ?_) fun _ => ?_
  · have taken : ends.reach rest 4 = 4 := reach_of_mark opens (by decide) rfl
    rw [HostAhead.map, taken]
  refine HostAhead.ite_eq_map (fun opens => ?_) fun _ => ?_
  · have taken : ends.reach rest 2 = 2 := reach_of_mark opens (by decide) rfl
    rw [HostAhead.map, taken]
  refine HostAhead.ite_eq_map (fun opens => ?_) fun _ => ?_
  · obtain ⟨more, ahead⟩ := List.isPrefixOf_iff_prefix.mp opens
    obtain rfl : '<' :: '<' :: more = rest := (List.cons.inj ahead).2
    rw [write_cons_of_ne (by decide), write_cons_of_ne (by decide)]
    exact heredocAhead_write
  refine HostAhead.ite_eq_map (fun _ => rfl) fun _ => ?_
  refine HostAhead.ite_eq_map (fun closes => ?_) fun _ => ?_
  · obtain ⟨more, ahead⟩ := List.isPrefixOf_iff_prefix.mp closes
    obtain rfl : '>' :: more = rest := (List.cons.inj ahead).2
    change HostAhead.pass ⟨inlineTextLength ((ends.write ('>' :: more)).drop 1) + 1, true⟩ =
      HostAhead.pass ⟨ends.reach ('>' :: more) (inlineTextLength more + 1), true⟩
    rw [write_cons_of_ne (by decide), List.drop_one, List.tail_cons, inlineTextLength_write,
      reach_cons_succ_of_ne (by decide)]
  refine HostAhead.ite_eq_map (fun _ => ?_) fun _ => ?_
  · rw [lineCommentLength_write, HostAhead.map]
  refine HostAhead.ite_eq_map (fun opens => ?_) fun _ => ?_
  · obtain ⟨more, ahead⟩ := List.isPrefixOf_iff_prefix.mp opens
    obtain rfl : '*' :: more = rest := (List.cons.inj ahead).2
    change commentAhead start ((ends.write ('*' :: more)).drop 1) =
      (commentAhead start more).map (ends.reach ('*' :: more))
    rw [write_cons_of_ne (by decide), List.drop_one, List.tail_cons, commentAhead_write]
  refine HostAhead.ite_eq_map (fun _ => ?_) fun _ => ?_
  · rw [stringAhead, stringAhead, quotedTail?_write inLine]
    cases quotedTail? first rest <;> rfl
  refine HostAhead.ite_eq_map (fun _ => run isIdentifierChar rfl rfl false) fun _ => ?_
  refine HostAhead.ite_eq_map (fun _ => run isHostNumberChar rfl rfl false) fun _ => ?_
  refine HostAhead.ite_eq_map (fun _ => ?_) fun _ => ?_
  · rw [wordAhead, wordAhead, takeWhile_write_inLine (by rfl) (by rfl), HostAhead.map,
      reach_takeWhile_inLine (by rfl) (by rfl)]
  refine HostAhead.ite_eq_map (fun _ => rfl) fun _ => ?_
  refine HostAhead.ite_eq_map (fun both => ?_) fun _ => ?_
  · obtain ⟨more, ahead⟩ := List.head?_eq_some_iff.mp
      (beq_iff_eq.mp (Bool.and_eq_true_iff.mp both).2)
    rw [ahead, HostAhead.map, reach_cons_succ_of_ne noFeed, reach_zero]
  rw [castTail?_write]
  cases start && first == '(' with
  | false => rfl
  | true => cases castTail? rest <;> rfl

end LineEnds
end EmbeddedMarkup
