import EmbeddedMarkup.Proofs.HostText.Stops

/-!
# Bodies of opaque text

Nothing is markup in strings, comments, heredocs and inline text.  How far each of them reaches is
found by a search for its end, so its body is any text in which the end does not stand yet.
-/

namespace EmbeddedMarkup

variable {cs rest later text label body : List Char} {ch quote : Char} {length : Nat}

/-! ## Strings -/

/--
A text that may stand between two quotes: the quote occurs only as an escaped character, and the
text does not end inside an escape.
-/
inductive IsQuotedBody (quote : Char) : List Char → Prop
  | nil : IsQuotedBody quote []
  | escaped {ch : Char} {body : List Char} :
      IsQuotedBody quote body →
      IsQuotedBody quote ('\\' :: ch :: body)
  | plain {ch : Char} {body : List Char} :
      ch ≠ '\\' →
      ch ≠ quote →
      IsQuotedBody quote body →
      IsQuotedBody quote (ch :: body)

theorem quotedTail?_of_plain (plain : ch ≠ '\\') :
    quotedTail? quote (ch :: rest) =
      if ch = quote then some 1 else (quotedTail? quote rest).map (· + 1) := by
  rw [quotedTail?]
  · intro same
    cases same
    exact absurd rfl plain
  · intro _ _ same
    cases same
    exact absurd rfl plain

theorem quotedTail?_cons (plain : ch ≠ '\\') (open_ : ch ≠ quote) :
    quotedTail? quote (ch :: rest) = (quotedTail? quote rest).map (· + 1) := by
  rw [quotedTail?_of_plain plain, if_neg open_]

theorem quotedTail?_of_closing (plain : quote ≠ '\\') :
    quotedTail? quote (quote :: rest) = some 1 := by
  rw [quotedTail?_of_plain plain, if_pos rfl]

/-- The rest of a string is a body and the quote behind it. -/
theorem quotedTail?_eq_some_iff (plain : quote ≠ '\\') :
    quotedTail? quote text = some length ↔
      ∃ body rest, IsQuotedBody quote body ∧ text = body ++ quote :: rest ∧
        length = body.length + 1 := by
  constructor
  · intro closed
    fun_induction quotedTail? quote text generalizing length with
    | case1 => cases closed
    | case2 => cases closed
    | case3 ch text ih =>
        obtain ⟨inner, found, rfl⟩ := Option.map_eq_some_iff.mp closed
        obtain ⟨body, rest, isBody, rfl, rfl⟩ := ih found
        exact ⟨'\\' :: ch :: body, rest, .escaped isBody, rfl, rfl⟩
    | case4 text =>
        cases closed
        exact ⟨[], text, .nil, rfl, rfl⟩
    | case5 ch text last escaped other ih =>
        have visible : ch ≠ '\\' := by
          intro same
          cases text with
          | nil => exact last same rfl
          | cons => exact escaped _ _ same rfl
        obtain ⟨inner, found, rfl⟩ := Option.map_eq_some_iff.mp closed
        obtain ⟨body, rest, isBody, rfl, rfl⟩ := ih found
        exact ⟨ch :: body, rest, .plain visible other isBody, rfl, rfl⟩
  · rintro ⟨body, rest, isBody, rfl, rfl⟩
    induction isBody with
    | nil => exact quotedTail?_of_closing plain
    | escaped isBody ih =>
        rw [List.cons_append, List.cons_append, quotedTail?, ih]
        rfl
    | plain visible other isBody ih =>
        rw [List.cons_append, quotedTail?_cons visible other, ih]
        rfl

/-- The rest of a string ends with its first quote. -/
theorem quotedTail?_append (plain : quote ≠ '\\') (closed : quotedTail? quote text = some length) :
    quotedTail? quote (text ++ rest) = some length := by
  obtain ⟨body, behind, isBody, rfl, same⟩ := (quotedTail?_eq_some_iff plain).mp closed
  exact (quotedTail?_eq_some_iff plain).mpr ⟨body, behind ++ rest, isBody, by simp, same⟩

theorem length_quotedTail?_le
    (plain : quote ≠ '\\')
    (closed : quotedTail? quote text = some length) :
    length ≤ text.length := by
  obtain ⟨body, rest, -, rfl, rfl⟩ := (quotedTail?_eq_some_iff plain).mp closed
  simp

/-- A string that ends inside a text is one of the text. -/
theorem quotedTail?_of_append
    (plain : quote ≠ '\\')
    (closed : quotedTail? quote (text ++ rest) = some length)
    (fits : length ≤ text.length) :
    quotedTail? quote text = some length := by
  obtain ⟨body, behind, isBody, whole, rfl⟩ := (quotedTail?_eq_some_iff plain).mp closed
  have front : body ++ [quote] <+: text := by
    refine List.prefix_of_prefix_length_le ⟨behind, ?_⟩ (List.prefix_append text rest) (by simpa)
    rw [whole, List.append_assoc]
    rfl
  obtain ⟨more, rfl⟩ := front
  exact (quotedTail?_eq_some_iff plain).mpr ⟨body, more, isBody, by simp, rfl⟩

/-- A string takes exactly a text if it is a body with the closing quote. -/
theorem quotedTail?_eq_length_iff (plain : quote ≠ '\\') :
    quotedTail? quote (text ++ rest) = some text.length ↔
      ∃ body, IsQuotedBody quote body ∧ text = body ++ [quote] := by
  constructor
  · intro closed
    have inside := quotedTail?_of_append plain closed (Nat.le_refl _)
    obtain ⟨body, behind, isBody, rfl, whole⟩ := (quotedTail?_eq_some_iff plain).mp inside
    rw [List.length_append, List.length_cons] at whole
    obtain rfl : behind = [] := List.length_eq_zero_iff.mp (by omega)
    exact ⟨body, isBody, rfl⟩
  · rintro ⟨body, isBody, rfl⟩
    exact (quotedTail?_eq_some_iff plain).mpr ⟨body, rest, isBody, by simp, by simp⟩

/-! ## Line comments -/

/-- A text that may stand in a line comment, which ends neither the line nor the host code. -/
def IsLineBody (body : List Char) : Prop :=
  (∀ ch ∈ body, isLineEnd ch = false) ∧ ¬"?>".toList <:+: body

theorem isLineBody_nil : IsLineBody [] := by
  refine ⟨fun _ none => (nomatch none), ?_⟩
  rintro ⟨before, behind, whole⟩
  simp at whole

theorem isLineBody_cons :
    IsLineBody (ch :: body) ↔
      (isLineEnd ch = false ∧ endsHostCode (ch :: body) = false) ∧ IsLineBody body := by
  rw [IsLineBody, IsLineBody, List.forall_mem_cons, List.infix_cons_iff, not_or, endsHostCode,
    ← List.isPrefixOf_iff_prefix, Bool.not_eq_true, and_and_and_comm]

/-- The end of a line does not start the end of host code, nor is it in its middle. -/
theorem endsHostCode_line (ends : isLineEnd quote = true) :
    endsHostCode (ch :: (body ++ quote :: later)) = endsHostCode (ch :: body) := by
  cases body with
  | cons next body => simp [endsHostCode, List.isPrefixOf]
  | nil =>
      have other : ('>' == quote) = false := by
        rw [beq_eq_false_iff_ne]
        rintro rfl
        cases ends
      simp [endsHostCode, List.isPrefixOf, other]

/-- A line comment reaches up to the end of a line exactly if its body could stand in it. -/
theorem lineCommentLength_eq_iff (ends : isLineEnd ch = true) :
    lineCommentLength (body ++ ch :: later) = body.length ↔ IsLineBody body := by
  induction body with
  | nil => simp [lineCommentLength, ends, isLineBody_nil]
  | cons first body ih =>
      rw [isLineBody_cons, ← ih, List.cons_append, lineCommentLength, endsHostCode_line ends]
      cases isLineEnd first <;> cases endsHostCode (first :: body) <;> simp

/-! ## Inline text -/

/-- A text in which no host code opens. -/
def IsInlineBody (body : List Char) : Prop :=
  ¬"<?php".toList <:+: body ∧ ¬"<?=".toList <:+: body

theorem isInlineBody_nil : IsInlineBody [] := by
  constructor <;> rintro ⟨before, behind, whole⟩ <;> simp at whole

theorem isInlineBody_cons :
    IsInlineBody (ch :: body) ↔ startsHostCode (ch :: body) = false ∧ IsInlineBody body := by
  rw [IsInlineBody, IsInlineBody, List.infix_cons_iff, List.infix_cons_iff, not_or, not_or,
    startsHostCode, ← List.isPrefixOf_iff_prefix, ← List.isPrefixOf_iff_prefix,
    Bool.or_eq_false_iff, Bool.not_eq_true, Bool.not_eq_true, and_and_and_comm]

/-- Inline text ends right away at the end of a text, and where host code opens. -/
theorem inlineTextLength_eq_zero_iff :
    inlineTextLength later = 0 ↔ later = [] ∨ startsHostCode later = true := by
  cases later with
  | nil => simp [inlineTextLength]
  | cons ch later => simp [inlineTextLength]

/-- Where inline text ends, no opening of host code has started before. -/
theorem startsHostCode_append (ends : inlineTextLength later = 0) :
    startsHostCode (ch :: (body ++ later)) = startsHostCode (ch :: body) := by
  rcases inlineTextLength_eq_zero_iff.mp ends with rfl | opens
  · rw [List.append_nil]
  · obtain ⟨more, rfl⟩ : ∃ more, later = '<' :: more := by
      rcases Bool.or_eq_true_iff.mp opens with long | short
      · obtain ⟨more, same⟩ := List.isPrefixOf_iff_prefix.mp long
        exact ⟨_, same.symm⟩
      · obtain ⟨more, same⟩ := List.isPrefixOf_iff_prefix.mp short
        exact ⟨_, same.symm⟩
    rcases body with _ | ⟨c₁, _ | ⟨c₂, _ | ⟨c₃, _ | ⟨c₄, body⟩⟩⟩⟩ <;>
      simp [startsHostCode, List.isPrefixOf]

/-- Inline text reaches up to where it may end exactly if no host code opens in it. -/
theorem inlineTextLength_eq_iff :
    inlineTextLength (body ++ later) = body.length ↔
      IsInlineBody body ∧ inlineTextLength later = 0 := by
  induction body with
  | nil => simp [isInlineBody_nil]
  | cons ch body ih =>
      rw [isInlineBody_cons, and_assoc, ← ih, List.cons_append, inlineTextLength]
      constructor
      · intro whole
        split at whole
        · cases whole
        · rename_i closed
          have inner := Nat.succ.inj whole
          rw [startsHostCode_append (ih.mp inner).2, Bool.not_eq_true] at closed
          exact ⟨closed, inner⟩
      · rintro ⟨closed, inner⟩
        rw [startsHostCode_append (ih.mp inner).2, closed, inner]
        rfl

/-! ## Heredocs -/

/-- A text in front of which a label ends: it does not start with an identifier character. -/
def EndsLabel (text : List Char) : Prop :=
  ∀ ch, text.head? = some ch → isIdentifierChar ch = false

/-- A line in a heredoc: it does not start with the label, behind blanks at most. -/
def IsHeredocLine (label line : List Char) : Prop :=
  '\n' ∉ line ∧ isLabelAhead label (line.dropWhile isInlineBlank) = false

/-- Lines with their line feeds. -/
def ofLines (lines : List (List Char)) : List Char :=
  lines.flatMap (· ++ ['\n'])

@[simp] theorem ofLines_nil : ofLines [] = [] :=
  rfl

@[simp] theorem ofLines_cons (line : List Char) (lines : List (List Char)) :
    ofLines (line :: lines) = line ++ '\n' :: ofLines lines := by
  simp [ofLines]

theorem isLabelAhead_iff :
    isLabelAhead label cs = true ↔ ∃ rest, cs = label ++ rest ∧ EndsLabel rest := by
  have ends (rest : List Char) :
      (!((rest.head?.map isIdentifierChar).getD false)) = true ↔ EndsLabel rest := by
    cases rest <;> simp [EndsLabel]
  rw [isLabelAhead, Bool.and_eq_true, List.isPrefixOf_iff_prefix, ends]
  constructor
  · rintro ⟨⟨rest, rfl⟩, plain⟩
    rw [List.drop_left] at plain
    exact ⟨rest, rfl, plain⟩
  · rintro ⟨rest, rfl, plain⟩
    rw [List.drop_left]
    exact ⟨List.prefix_append label rest, plain⟩

/-- No label closes a heredoc before the next line starts. -/
theorem heredocTail?_line (line : List Char) (plain : '\n' ∉ line) :
    heredocTail? label (line ++ text) = (heredocTail? label text).map (· + line.length) := by
  induction line with
  | nil => exact (congrFun Option.map_id _).symm
  | cons ch line ih =>
      rw [List.mem_cons, not_or] at plain
      rw [List.cons_append, heredocTail?, ih plain.2, Option.map_map]
      have other : ch ≠ '\n' := Ne.symm plain.1
      simp only [other, decide_false, Bool.false_and, Bool.false_eq_true, if_false]
      rfl

theorem drop_length_takeWhile (p : Char → Bool) (cs : List Char) :
    cs.drop (cs.takeWhile p).length = cs.dropWhile p := by
  have whole := @List.drop_left _ (cs.takeWhile p) (cs.dropWhile p)
  rwa [List.takeWhile_append_dropWhile] at whole

/-- Where a line starts, the label closes the heredoc or the line is one of it. -/
theorem heredocTail?_feed :
    heredocTail? label ('\n' :: text) =
      if isLabelAhead label (text.dropWhile isInlineBlank) then
        some (1 + (text.takeWhile isInlineBlank).length + label.length)
      else (heredocTail? label text).map (· + 1) := by
  rw [heredocTail?, drop_length_takeWhile]
  simp

theorem isInlineBlank_eq_false (isChar : isIdentifierChar ch = true) :
    isInlineBlank ch = false := by
  rw [isInlineBlank, Bool.or_eq_false_iff, beq_eq_false_iff_ne, beq_eq_false_iff_ne]
  constructor <;> rintro rfl <;> cases isChar

/-- A line in front of others does not start with the label either. -/
theorem isLabelAhead_line
    {line : List Char}
    (proper : ∀ ch ∈ label, isIdentifierChar ch = true) :
    isLabelAhead label ((line ++ '\n' :: text).dropWhile isInlineBlank) =
      isLabelAhead label (line.dropWhile isInlineBlank) := by
  have plain : '\n' ∉ label := fun member => nomatch proper _ member
  rw [List.dropWhile_append]
  split
  · rename_i whole
    rw [List.isEmpty_iff.mp whole]
    exact @isLabelAhead_stop [] text label '\n' plain rfl
  · exact isLabelAhead_stop plain rfl

/-- Behind the line feed of its first line a heredoc has lines, and then its closing label. -/
theorem exists_lines_of_heredocTail?
    (proper : ∀ ch ∈ label, isIdentifierChar ch = true)
    (closed : heredocTail? label ('\n' :: text) = some length) :
    ∃ lines blanks rest, (∀ line ∈ lines, IsHeredocLine label line) ∧
      (∀ ch ∈ blanks, isInlineBlank ch = true) ∧ EndsLabel rest ∧
      text = ofLines lines ++ blanks ++ label ++ rest ∧
      length = (ofLines lines ++ blanks ++ label).length + 1 := by
  induction size : text.length using Nat.strongRecOn generalizing text length with
  | ind size shorter =>
      subst size
      rw [heredocTail?_feed] at closed
      split at closed
      · rename_i closing
        obtain ⟨rest, ahead, plain⟩ := isLabelAhead_iff.mp closing
        have whole := @List.takeWhile_append_dropWhile _ isInlineBlank text
        rw [ahead, ← List.append_assoc] at whole
        refine ⟨[], text.takeWhile isInlineBlank, rest, fun _ none => (nomatch none),
          List.all_eq_true.mp List.all_takeWhile, plain, whole.symm, ?_⟩
        rw [← Option.some.inj closed, ofLines_nil, List.nil_append, List.length_append]
        omega
      · rename_i open_
        obtain ⟨inner, found, rfl⟩ := Option.map_eq_some_iff.mp closed
        by_cases feed : '\n' ∈ text
        · obtain ⟨line, text, rfl, plain⟩ := List.eq_append_cons_of_mem feed
          rw [heredocTail?_line line plain] at found
          obtain ⟨behind, onward, rfl⟩ := Option.map_eq_some_iff.mp found
          obtain ⟨lines, blanks, rest, areLines, areBlanks, ends, rfl, rfl⟩ :=
            shorter text.length (by simp; omega) onward rfl
          rw [isLabelAhead_line proper, Bool.not_eq_true] at open_
          refine ⟨line :: lines, blanks, rest, List.forall_mem_cons.mpr ⟨⟨plain, open_⟩, areLines⟩,
            areBlanks, ends, by simp, ?_⟩
          simp only [ofLines_cons, List.length_append, List.length_cons]
          omega
        · rw [← List.append_nil text, heredocTail?_line text feed] at found
          cases found

/-- A label starts behind the blanks in front of it. -/
theorem dropWhile_isInlineBlank_label
    {blanks : List Char}
    (nonempty : label ≠ [])
    (proper : ∀ ch ∈ label, isIdentifierChar ch = true)
    (areBlanks : ∀ ch ∈ blanks, isInlineBlank ch = true) :
    (blanks ++ (label ++ rest)).dropWhile isInlineBlank = label ++ rest := by
  obtain ⟨first, more, rfl⟩ := List.exists_cons_of_ne_nil nonempty
  have visible := isInlineBlank_eq_false (proper first List.mem_cons_self)
  rw [List.dropWhile_append_of_pos areBlanks]
  simp [visible]

theorem heredocTail?_of_lines
    {lines : List (List Char)}
    {blanks : List Char}
    (nonempty : label ≠ [])
    (proper : ∀ ch ∈ label, isIdentifierChar ch = true)
    (areLines : ∀ line ∈ lines, IsHeredocLine label line)
    (areBlanks : ∀ ch ∈ blanks, isInlineBlank ch = true)
    (ends : EndsLabel rest) :
    heredocTail? label ('\n' :: (ofLines lines ++ blanks ++ label ++ rest)) =
      some ((ofLines lines ++ blanks ++ label).length + 1) := by
  induction lines with
  | nil =>
      obtain ⟨first, more, rfl⟩ := List.exists_cons_of_ne_nil nonempty
      have visible := isInlineBlank_eq_false (proper first List.mem_cons_self)
      have whole : (blanks ++ (first :: more ++ rest)).takeWhile isInlineBlank = blanks := by
        rw [List.takeWhile_append_of_pos areBlanks]
        simp [visible]
      rw [ofLines_nil, List.nil_append, List.append_assoc, heredocTail?_feed, whole,
        dropWhile_isInlineBlank_label nonempty proper areBlanks,
        if_pos (isLabelAhead_iff.mpr ⟨rest, rfl, ends⟩), List.length_append]
      congr 1
      omega
  | cons line lines ih =>
      obtain ⟨⟨plain, open_⟩, areLines⟩ := List.forall_mem_cons.mp areLines
      have whole : ofLines (line :: lines) ++ blanks ++ label ++ rest =
          line ++ '\n' :: (ofLines lines ++ blanks ++ label ++ rest) := by
        simp
      have closed : isLabelAhead label
          ((line ++ '\n' :: (ofLines lines ++ blanks ++ label ++ rest)).dropWhile isInlineBlank) =
            false := by
        rw [isLabelAhead_line proper, open_]
      rw [whole, heredocTail?_feed, closed, if_neg Bool.false_ne_true, heredocTail?_line line plain,
        ih areLines]
      simp
      omega

/-- A heredoc with this label, whose lines start behind so many characters. -/
def linesAhead (label : List Char) (behind : Nat) (cs : List Char) : HostAhead :=
  match heredocTail? label (cs.drop behind) with
  | some length => .pass ⟨behind + length + 2, false⟩
  | none => .unterminated .unterminatedHeredoc

/-- A heredoc whose label starts behind so many characters, the last of them this quote if any. -/
def labelAhead (quote : Option Char) (before : Nat) (cs : List Char) : HostAhead :=
  let label := (cs.drop before).takeWhile isIdentifierChar
  if label.isEmpty then .pass ⟨before + 2, true⟩
  else
    let behind := before + label.length
    linesAhead label
      (behind + if quote.isSome && (cs.drop behind).head? == quote then 1 else 0) cs

theorem heredocAhead_eq_labelAhead (cs : List Char) :
    heredocAhead cs =
      let blanks := (cs.takeWhile isInlineBlank).length
      let quote := (cs.drop blanks).head?.filter fun c => c == '"' || c == '\''
      labelAhead quote (blanks + quote.toList.length) cs :=
  rfl

/-- In the line of its label a heredoc does not end. -/
theorem linesAhead_eq
    {more : List Char}
    {behind : Nat}
    (oneLine : '\n' ∉ more)
    (ahead : cs.drop behind = more ++ '\n' :: text) :
    linesAhead label behind cs =
      match heredocTail? label ('\n' :: text) with
      | some length => .pass ⟨behind + (length + more.length) + 2, false⟩
      | none => .unterminated .unterminatedHeredoc := by
  rw [linesAhead, ahead, heredocTail?_line _ oneLine]
  cases heredocTail? label ('\n' :: text) <;> rfl

/-- A quote that closes the label stands in its line, so it does not matter that it is skipped. -/
theorem labelAhead_eq
    {more : List Char}
    {quote : Option Char}
    {before : Nat}
    (isQuote : quote ≠ some '\n')
    (nonempty : label ≠ [])
    (proper : ∀ ch ∈ label, isIdentifierChar ch = true)
    (ends : EndsLabel more)
    (oneLine : '\n' ∉ more)
    (ahead : cs.drop before = label ++ (more ++ '\n' :: text)) :
    labelAhead quote before cs =
      match heredocTail? label ('\n' :: text) with
      | some length => .pass ⟨before + label.length + (length + more.length) + 2, false⟩
      | none => .unterminated .unterminatedHeredoc := by
  have named : (cs.drop before).takeWhile isIdentifierChar = label := by
    rw [ahead, List.takeWhile_append_of_pos proper]
    cases more with
    | nil => simp; rfl
    | cons ch more => simp [ends ch rfl]
  have behind : cs.drop (before + label.length) = more ++ '\n' :: text := by
    rw [← List.drop_drop, ahead, List.drop_left]
  rw [labelAhead, named, if_neg (by simpa using nonempty)]
  dsimp only
  rw [behind]
  split
  · rename_i closes
    obtain ⟨quoted, same⟩ := Bool.and_eq_true_iff.mp closes
    rw [beq_iff_eq] at same
    cases more with
    | nil => exact absurd same.symm isQuote
    | cons ch more =>
        have onward : cs.drop (before + label.length + 1) = more ++ '\n' :: text := by
          rw [← List.drop_drop, behind]
          rfl
        rw [linesAhead_eq (fun member => oneLine (List.mem_cons_of_mem _ member)) onward]
        cases heredocTail? label ('\n' :: text) with
        | none => rfl
        | some length =>
            simp only [List.length_cons]
            congr 2
            omega
  · exact linesAhead_eq oneLine behind

/-! ## Text without an end -/

/-- A string opens here, and no text that may stand in it is followed by its quote. -/
def LeavesStringOpen (cs : List Char) : Prop :=
  ∃ quote rest, (quote = '\'' ∨ quote = '"' ∨ quote = '\x60') ∧ cs = quote :: rest ∧
    ∀ body, IsQuotedBody quote body → ¬body ++ [quote] <+: rest

/-- A block comment opens here, and all that follows may stand in it. -/
def LeavesCommentOpen (cs : List Char) : Prop :=
  ∃ body, cs = "/*".toList ++ body ∧ IsCommentBody body

/-- A line behind the first one starts with the label, behind blanks at most. -/
def HasClosingLabel (label text : List Char) : Prop :=
  ∃ before blanks rest, (∀ ch ∈ blanks, isInlineBlank ch = true) ∧ EndsLabel rest ∧
    text = before ++ '\n' :: (blanks ++ (label ++ rest))

/-- A heredoc opens here, with a label, and no line closes it. -/
def LeavesHeredocOpen (cs : List Char) : Prop :=
  ∃ blanks quote label more, cs = "<<<".toList ++ (blanks ++ (quote ++ (label ++ more))) ∧
    (∀ ch ∈ blanks, isInlineBlank ch = true) ∧ (quote = [] ∨ quote = ['\''] ∨ quote = ['"']) ∧
    label ≠ [] ∧ (∀ ch ∈ label, isIdentifierChar ch = true) ∧ EndsLabel more ∧
    ¬HasClosingLabel label more

/-- What is left open where host text cannot be passed over. -/
def HostTextCause.LeavesOpen (cs : List Char) : HostTextCause → Prop
  | .unterminatedString => LeavesStringOpen cs
  | .unterminatedComment => LeavesCommentOpen cs
  | .unterminatedHeredoc => LeavesHeredocOpen cs

/-- A string that has no end for a scanner is left open. -/
theorem leavesStringOpen_of_quotedTail?
    (isQuote : quote = '\'' ∨ quote = '"' ∨ quote = '\x60')
    (unended : quotedTail? quote rest = none) :
    LeavesStringOpen (quote :: rest) := by
  have plain : quote ≠ '\\' := by
    rcases isQuote with rfl | rfl | rfl <;> decide
  refine ⟨quote, rest, isQuote, rfl, ?_⟩
  rintro body isBody ⟨more, chars⟩
  have whole : rest = body ++ quote :: more := by
    rw [← chars, List.append_assoc]
    rfl
  rw [(quotedTail?_eq_some_iff plain).mpr ⟨body, more, isBody, whole, rfl⟩] at unended
  cases unended

theorem leavesCommentOpen_of_blockCommentTail? (unended : blockCommentTail? rest = none) :
    LeavesCommentOpen ('/' :: '*' :: rest) :=
  ⟨rest, rfl, blockCommentTail?_eq_none_iff.mp unended⟩

/-- A line that starts with the label closes a heredoc, if no line before it does. -/
theorem HasClosingLabel.heredocTail?_ne_none
    (nonempty : label ≠ [])
    (proper : ∀ ch ∈ label, isIdentifierChar ch = true)
    (closing : HasClosingLabel label text) :
    heredocTail? label text ≠ none := by
  obtain ⟨before, blanks, rest, areBlanks, ends, rfl⟩ := closing
  induction before with
  | nil =>
      have labelled : isLabelAhead label (label ++ rest) = true :=
        isLabelAhead_iff.mpr ⟨rest, rfl, ends⟩
      rw [List.nil_append, heredocTail?_feed,
        dropWhile_isInlineBlank_label nonempty proper areBlanks, if_pos labelled]
      exact Option.some_ne_none _
  | cons ch before ih =>
      rw [List.cons_append, heredocTail?]
      split
      · exact Option.some_ne_none _
      · rwa [Ne, Option.map_eq_none_iff]

/-- A quote that is skipped in front of the lines of a heredoc closes none of them. -/
theorem HasClosingLabel.of_drop
    {quote : Option Char}
    (isQuote : quote ≠ some '\n')
    (closing : HasClosingLabel label text) :
    HasClosingLabel label
      (text.drop (if quote.isSome && text.head? == quote then 1 else 0)) := by
  obtain ⟨before, blanks, rest, areBlanks, ends, rfl⟩ := closing
  split
  · rename_i quoted
    have same := beq_iff_eq.mp (Bool.and_eq_true_iff.mp quoted).2
    cases before with
    | nil => exact absurd same.symm isQuote
    | cons ch before => exact ⟨before, blanks, rest, areBlanks, ends, rfl⟩
  · exact ⟨before, blanks, rest, areBlanks, ends, rfl⟩

theorem leavesOpen_of_labelAhead
    {cause : HostTextCause}
    {quote : Option Char}
    {blanks : List Char}
    (areBlanks : ∀ ch ∈ blanks, isInlineBlank ch = true)
    (isQuote : quote = none ∨ quote = some '\'' ∨ quote = some '"')
    (unended : labelAhead quote (blanks ++ quote.toList).length (blanks ++ quote.toList ++ text) =
      .unterminated cause) :
    cause.LeavesOpen ("<<<".toList ++ (blanks ++ quote.toList ++ text)) := by
  have noFeed : quote ≠ some '\n' := by
    rcases isQuote with rfl | rfl | rfl <;> decide
  have asText : quote.toList = [] ∨ quote.toList = ['\''] ∨ quote.toList = ['"'] := by
    rcases isQuote with rfl | rfl | rfl <;> simp
  have whole := @List.takeWhile_append_dropWhile _ isIdentifierChar text
  have proper : ∀ ch ∈ text.takeWhile isIdentifierChar, isIdentifierChar ch = true :=
    List.all_eq_true.mp List.all_takeWhile
  have ends : EndsLabel (text.dropWhile isIdentifierChar) := by
    intro ch next
    have stops := List.head?_dropWhile_not isIdentifierChar text
    rw [next] at stops
    simpa using stops
  unfold labelAhead linesAhead at unended
  dsimp only at unended
  rw [← List.drop_drop, ← List.drop_drop, List.drop_left, drop_length_takeWhile] at unended
  split at unended
  · cases unended
  · rename_i named
    have nonempty : text.takeWhile isIdentifierChar ≠ [] := fun none => named (by rw [none]; rfl)
    split at unended <;> cases unended
    rename_i open_
    refine ⟨blanks, quote.toList, _, text.dropWhile isIdentifierChar, ?_, areBlanks, asText,
      nonempty, proper, ends, fun closing => ?_⟩
    · rw [whole, List.append_assoc]
    · exact (closing.of_drop noFeed).heredocTail?_ne_none nonempty proper open_

/-- What cannot be passed over as a heredoc is one that is left open. -/
theorem leavesOpen_of_heredocAhead
    {cause : HostTextCause}
    (unended : heredocAhead cs = .unterminated cause) :
    cause.LeavesOpen ("<<<".toList ++ cs) := by
  rw [heredocAhead_eq_labelAhead] at unended
  dsimp only at unended
  rw [drop_length_takeWhile] at unended
  have whole := @List.takeWhile_append_dropWhile _ isInlineBlank cs
  have areBlanks : ∀ ch ∈ cs.takeWhile isInlineBlank, isInlineBlank ch = true :=
    List.all_eq_true.mp List.all_takeWhile
  generalize cs.takeWhile isInlineBlank = blanks at whole areBlanks unended
  generalize cs.dropWhile isInlineBlank = behind at whole unended
  subst whole
  obtain ⟨quote, text, found, isQuote, rfl⟩ : ∃ quote text,
      (behind.head?.filter fun c => c == '"' || c == '\'') = quote ∧
        (quote = none ∨ quote = some '\'' ∨ quote = some '"') ∧ behind = quote.toList ++ text := by
    cases behind with
    | nil => exact ⟨none, [], rfl, .inl rfl, rfl⟩
    | cons ch text =>
        by_cases double : ch = '"'
        · subst double
          exact ⟨_, text, rfl, .inr (.inr rfl), rfl⟩
        · by_cases single : ch = '\''
          · subst single
            exact ⟨_, text, rfl, .inr (.inl rfl), rfl⟩
          · refine ⟨none, ch :: text, ?_, .inl rfl, rfl⟩
            simp [double, single]
  rw [found, ← List.length_append, ← List.append_assoc] at unended
  rw [← List.append_assoc blanks]
  exact leavesOpen_of_labelAhead areBlanks isQuote unended

end EmbeddedMarkup
