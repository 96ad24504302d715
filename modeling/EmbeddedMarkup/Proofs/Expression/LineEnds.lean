import EmbeddedMarkup.Proofs.Expression.Truncation
import EmbeddedMarkup.Proofs.Text.LineEnds

/-!
# Lexemes and line ends

Most lexemes stand in a line, and what is behind the line is the same to them, whatever ends it.  A
string may hold line ends, and then its value holds them as they are written.  A backslash in front
of a line end is no escape, so it stands for itself in front of either of the two characters.
-/

namespace EmbeddedMarkup

/-- The second lexeme says the same as the first one. -/
inductive Lexeme.Follows (ends : LineEnds) : Lexeme → Lexeme → Prop
  | same (lexeme : Lexeme) : Follows ends lexeme lexeme
  | string {value value' : String} :
      ends.plain value' = ends.plain value →
      Follows ends (.string value) (.string value')

/-- A comment of another length. -/
def CommentReading.map (f : Nat → Nat) : CommentReading → CommentReading
  | .absent => .absent
  | .comment length => .comment (f length)
  | .unterminated => .unterminated

/-- The second reading is the first one in a text that is written again; the first text is `cs`. -/
structure StringReading.Follows
    (ends : LineEnds)
    (cs : List Char)
    (reading reading' : StringReading) : Prop where
  value : ends.clean reading'.value = ends.clean reading.value
  length : reading'.length = ends.reach cs reading.length

theorem StringReading.length_cons (meaning : Char) (spelled : Nat) (reading : StringReading) :
    (reading.cons meaning spelled).length = reading.length + spelled :=
  Nat.add_comm _ _

namespace LineEnds

variable {ends : LineEnds} {ch first quote : Char} {cs rest line : List Char} {n : Nat}

/-- A text is a line and what is behind it. -/
theorem exists_line (cs : List Char) : ∃ line rest, cs = line ++ rest ∧ InLine line ∧
    ∀ ch, rest.head? = some ch → isLineEnd ch = true := by
  refine ⟨cs.takeWhile (!isLineEnd ·), cs.dropWhile (!isLineEnd ·),
    List.takeWhile_append_dropWhile.symm, ?_, ?_⟩
  · intro ch member
    simpa using List.all_eq_true.mp List.all_takeWhile ch member
  · intro ch ahead
    have stops := List.head?_dropWhile_not (!isLineEnd ·) cs
    simpa [ahead] using stops

theorem write_line (inLine : InLine line) :
    ends.write (line ++ rest) = line ++ ends.write rest := by
  rw [write_append, write_of_inLine inLine]

theorem separated_of_isLineEnd (ended : ∀ ch, rest.head? = some ch → isLineEnd ch = true) :
    Separated rest := by
  intro ch ahead
  have isEnd := ended ch ahead
  simp only [isLineEnd, Bool.or_eq_true, beq_iff_eq] at isEnd
  rcases isEnd with rfl | rfl <;> decide

/-- The end of a line is written as an end of a line. -/
theorem isLineEnd_of_head?_write
    (ended : ∀ ch, rest.head? = some ch → isLineEnd ch = true)
    (ahead : (ends.write rest).head? = some ch) :
    isLineEnd ch = true := by
  have same := @map_head?_write ends rest isLineEnd rfl
  cases first : rest.head? with
  | none => simp [first, ahead] at same
  | some next => simpa [first, ahead, ended next first] using same

/-- In a line each character takes one. -/
theorem reach_line (inLine : InLine line) (inside : n ≤ line.length) :
    ends.reach (line ++ rest) n = n := by
  have opens : line.take n <+: line ++ rest :=
    (List.take_prefix n line).trans (line.prefix_append rest)
  have taken := @reach_of_opens ends _ _ opens (inLine.of_opens (List.take_prefix n line))
  rwa [List.length_take_of_le inside] at taken

/-! ## Strings -/

/-- No line end is escaped. -/
theorem escape?_lineEnd (isQuote : isLineEnd quote = false) (ended : isLineEnd ch = true) :
    escape? quote ch = none := by
  have other : ch ≠ quote := by
    rintro rfl
    rw [isQuote] at ended
    cases ended
  simp only [isLineEnd, Bool.or_eq_true, beq_iff_eq] at ended
  rcases ended with rfl | rfl <;> simp [escape?, other, controlEscape?]

/-- Characters that stand for themselves are in the value as they are written. -/
theorem readString?_spell
    (unquoted : ch ≠ quote)
    (plain : ch ≠ '\\')
    (isQuote : isLineEnd quote = false) :
    readString? quote (ends.spell ch ++ rest) =
      (readString? quote rest).map fun reading =>
        ⟨ends.spell ch ++ reading.value, (ends.spell ch).length + reading.length⟩ := by
  by_cases feed : ch = '\n'
  · subst feed
    rcases ends.spell_feed with spelled | spelled <;> rw [spelled]
    · exact readString?_cons unquoted plain
    · rw [List.cons_append, readString?_cons (isLineEnd_eq_false_iff.mp isQuote).2.symm (by decide),
        List.singleton_append, readString?_cons unquoted plain, Option.map_map]
      refine congrArg (Option.map · _) (funext fun reading => ?_)
      simp only [Function.comp, StringReading.cons, List.cons_append, List.nil_append,
        List.length_cons, List.length_nil, StringReading.mk.injEq, true_and]
      omega
  · rw [spell_of_ne feed]
    exact readString?_cons unquoted plain

/-- Results that are related stay so when both are changed. -/
theorem rel_map
    {α β γ δ : Type}
    {R : α → β → Prop}
    {S : γ → δ → Prop}
    {f : α → γ}
    {g : β → δ}
    {first : Option α}
    {second : Option β}
    (related : Option.Rel R first second)
    (stays : ∀ value value', R value value' → S (f value) (g value')) :
    Option.Rel S (first.map f) (second.map g) := by
  cases related with
  | none => exact .none
  | some here => exact .some (stays _ _ here)

/-- A string says the same and takes the same characters.  A backslash escapes no line feed, and no
carriage return in its place. -/
theorem readString?_write (isQuote : isLineEnd quote = false) :
    Option.Rel (StringReading.Follows ends cs) (readString? quote cs)
      (readString? quote (ends.write cs)) := by
  have noFeed := (isLineEnd_eq_false_iff.mp isQuote).1
  fun_induction readString? quote cs with
  | case1 => exact .none
  | case2 rest =>
      rw [write_cons_of_ne noFeed, readString?.eq_def]
      simp only [if_true]
      exact .some ⟨rfl, (@reach_cons_succ_of_ne ends _ rest 0 noFeed).symm⟩
  | case3 unquoted =>
      rw [write_of_inLine (by decide), readString?_backslash unquoted (by simp)]
      exact .none
  | case4 escaped behind meaning escapes unquoted ih =>
      have other : escaped ≠ '\n' := by
        rintro rfl
        rw [escape?_lineEnd isQuote rfl] at escapes
        cases escapes
      rw [write_cons_of_ne (by decide), write_cons_of_ne other,
        readString?_escape unquoted escapes]
      refine rel_map ih fun reading reading' follows => ⟨?_, ?_⟩
      · rw [StringReading.cons, StringReading.cons, clean_cons, follows.value, ← clean_cons]
      · rw [StringReading.length_cons, StringReading.length_cons, follows.length,
          reach_cons_succ_of_ne (by decide), reach_cons_succ_of_ne other]
  | case5 escaped behind plain unquoted ih =>
      have plain' : ∀ ch, (ends.write (escaped :: behind)).head? = some ch →
          escape? quote ch = none := by
        intro ch ahead
        by_cases feed : escaped = '\n'
        · refine escape?_lineEnd isQuote (isLineEnd_of_head?_write ?_ ahead)
          intro ch first
          cases first
          rw [feed]
          rfl
        · rw [write_cons_of_ne feed] at ahead
          cases ahead
          exact plain
      rw [write_cons_of_ne (by decide), readString?_backslash unquoted plain']
      refine rel_map ih fun reading reading' follows => ⟨?_, ?_⟩
      · rw [StringReading.cons, StringReading.cons, clean_cons, follows.value, ← clean_cons]
      · rw [StringReading.length_cons, StringReading.length_cons, follows.length,
          reach_cons_succ_of_ne (by decide)]
  | case6 ch rest unquoted visible ih =>
      rw [write_cons, readString?_spell unquoted visible isQuote]
      refine rel_map ih fun reading reading' follows => ⟨?_, ?_⟩
      · rw [StringReading.cons, clean_append, clean_spell, follows.value, ← clean_append,
          List.singleton_append]
      · rw [StringReading.length_cons, follows.length, reach_cons_succ]

end LineEnds

/-! ## Lexemes -/

namespace Lexeme.Follows

variable {ends : LineEnds} {lexeme lexeme' : Lexeme} (follows : Lexeme.Follows ends lexeme lexeme')

include follows

/-- A symbol follows itself only. -/
theorem symbol_iff {kind : Symbol} : lexeme' = .symbol kind ↔ lexeme = .symbol kind := by
  cases follows with
  | same => rfl
  | string => simp

theorem describe_eq : lexeme'.describe = lexeme.describe := by
  cases follows with
  | same => rfl
  | string => rfl

theorem show_eq : lexeme'.show = lexeme.show := by
  cases follows with
  | same => rfl
  | string => rfl

end Lexeme.Follows

namespace LexemeReading

/-- The second reading is the first one in a text that is written again; the first text is `cs`. -/
inductive Follows (ends : LineEnds) (cs : List Char) : LexemeReading → LexemeReading → Prop
  | found {lexeme lexeme' : Lexeme} {length length' : Nat} :
      Lexeme.Follows ends lexeme lexeme' →
      length' = ends.reach cs length →
      Follows ends cs (found lexeme length) (found lexeme' length')
  | failed {cause : LexicalCause} {length length' : Nat} :
      length' = ends.reach cs length →
      Follows ends cs (failed cause length) (failed cause length')

variable {ends : LineEnds} {first : Char} {rest word : List Char}

/-- A reading that takes the same characters of a line follows itself. -/
theorem follows_self
    {cs : List Char}
    {reading : LexemeReading}
    (length : reading.length = ends.reach cs reading.length) :
    Follows ends cs reading reading := by
  obtain ⟨_ | lexeme, taken⟩ := reading
  · exact .failed length
  · exact .found (.same lexeme) length

/-- A lexeme that is no string is read alike in front of separators. -/
theorem startingWith_append_of_unquoted
    (separated : Separated rest)
    (unquoted : ¬(first = '\'' ∨ first = '"')) :
    startingWith first (word ++ rest) = startingWith first word := by
  unfold startingWith
  rw [startsNumeral_append separated, numeral_append separated, variableName_append separated,
    ← List.cons_append, word_append separated, symbol_append separated, if_neg unquoted,
    if_neg unquoted]

theorem follows_string {quote : Char} (isQuote : isLineEnd quote = false) :
    Follows ends (quote :: rest) (string quote rest) (string quote (ends.write rest)) := by
  have noFeed := (isLineEnd_eq_false_iff.mp isQuote).1
  have read := @LineEnds.readString?_write ends quote rest isQuote
  unfold string
  generalize readString? quote rest = reading at read ⊢
  generalize readString? quote (ends.write rest) = reading' at read ⊢
  cases read with
  | none =>
      refine .failed ?_
      rw [LineEnds.reach_cons_succ_of_ne noFeed, LineEnds.reach_length]
  | some follows =>
      refine .found (.string ?_) ?_
      · rw [LineEnds.plain_ofList, LineEnds.plain_ofList, follows.value]
      · rw [LineEnds.reach_cons_succ_of_ne noFeed, follows.length]

/-- A visible lexeme says the same and takes the same characters. -/
theorem follows_ofChars
    {cs : List Char}
    (visible : ∀ ch, cs.head? = some ch → isBlank ch = false) :
    Follows ends cs (ofChars cs) (ofChars (ends.write cs)) := by
  cases cs with
  | nil => exact follows_self rfl
  | cons first rest =>
      have inLine := isLineEnd_of_isBlank (visible first rfl)
      have noFeed := ne_feed_of_isLineEnd inLine
      rw [LineEnds.write_cons_of_ne noFeed, ofChars, ofChars]
      by_cases quoted : first = '\'' ∨ first = '"'
      · have quotes (rest : List Char) : startingWith first rest = string first rest := by
          have noNumeral : startsNumeral first rest = false := by
            rcases quoted with rfl | rfl <;> rfl
          rw [startingWith, if_neg (by simp [noNumeral]), if_pos quoted]
        rw [quotes, quotes]
        exact follows_string inLine
      · obtain ⟨line, behind, rfl, isLine, ended⟩ := LineEnds.exists_line rest
        have separated := LineEnds.separated_of_isLineEnd ended
        have separated' := LineEnds.separated_of_isLineEnd
          (fun ch => @LineEnds.isLineEnd_of_head?_write ends ch behind ended)
        have short := length_ofChars_le (first :: line)
        rw [LineEnds.write_line isLine, startingWith_append_of_unquoted separated quoted,
          startingWith_append_of_unquoted separated' quoted]
        exact follows_self (LineEnds.reach_line (inLine_cons.mpr ⟨inLine, isLine⟩) short).symm

end LexemeReading

/-! ## Comments in front of tokens -/

namespace CommentReading

variable {ends : LineEnds} {cs : List Char}

/-- A line comment ends with its line, however the line ends. -/
theorem takeWhile_line_write :
    (ends.write cs).takeWhile (fun c => !isLineEnd c) = cs.takeWhile fun c => !isLineEnd c :=
  LineEnds.takeWhile_write_inLine rfl rfl

theorem reach_line :
    ends.reach cs (cs.takeWhile fun c => !isLineEnd c).length =
      (cs.takeWhile fun c => !isLineEnd c).length :=
  LineEnds.reach_takeWhile_inLine rfl rfl

/-- A comment takes the same characters. -/
theorem ofChars_write : ofChars (ends.write cs) = (ofChars cs).map (ends.reach cs) := by
  cases cs with
  | nil => rfl
  | cons ch rest =>
      by_cases feed : ch = '\n'
      · subst feed
        rw [LineEnds.write_cons]
        rcases ends.spell_feed with spelled | spelled <;> rw [spelled] <;> rfl
      · rw [LineEnds.write_cons_of_ne feed]
        by_cases hash : ch = '#'
        · subst hash
          have bracket := @LineEnds.head?_write_eq_some_iff ends '[' rest rfl
          rw [ofChars_hash, ofChars_hash, takeWhile_line_write]
          simp only [bracket]
          split
          · rfl
          · rw [map, LineEnds.reach_cons_succ_of_ne feed, reach_line]
        · by_cases slash : ch = '/' ∧ (rest.head? = some '/' ∨ rest.head? = some '*')
          · obtain ⟨rfl, line | block⟩ := slash
            · obtain ⟨behind, rfl⟩ := List.head?_eq_some_iff.mp line
              rw [LineEnds.write_cons_of_ne feed, ofChars, ofChars, takeWhile_line_write, map,
                LineEnds.reach_cons_succ_of_ne feed, LineEnds.reach_cons_succ_of_ne feed,
                reach_line]
            · obtain ⟨behind, rfl⟩ := List.head?_eq_some_iff.mp block
              have star : '*' ≠ '\n' := by decide
              rw [LineEnds.write_cons_of_ne star, ofChars, ofChars,
                LineEnds.blockCommentTail?_write]
              cases blockCommentTail? behind with
              | none => rfl
              | some length =>
                  rw [Option.map_some, map, LineEnds.reach_cons_succ_of_ne feed,
                    LineEnds.reach_cons_succ_of_ne star]
          · have plain (mark : Char) (inLine : isLineEnd mark = false)
                (marks : mark = '/' ∨ mark = '*') (isSlash : ch = '/') :
                rest.head? ≠ some mark ∧ (ends.write rest).head? ≠ some mark := by
              rw [Ne, Ne, LineEnds.head?_write_eq_some_iff inLine, and_self]
              intro ahead
              refine slash ⟨isSlash, ?_⟩
              rcases marks with rfl | rfl
              · exact .inl ahead
              · exact .inr ahead
            have line := plain '/' rfl (.inl rfl)
            have block := plain '*' rfl (.inr rfl)
            rw [ofChars_absent hash fun isSlash => ⟨(line isSlash).2, (block isSlash).2⟩,
              ofChars_absent hash fun isSlash => ⟨(line isSlash).1, (block isSlash).1⟩]
            rfl

end CommentReading
end EmbeddedMarkup
