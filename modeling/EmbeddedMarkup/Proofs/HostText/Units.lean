import EmbeddedMarkup.HostText.Scanner
import EmbeddedMarkup.Proofs.HostText.Bodies
import EmbeddedMarkup.Proofs.HostText.Places
import EmbeddedMarkup.Proofs.Reading.Holes

/-!
# What a scanner passes over

A scanner of host text passes over whole lexemes and trivia, although its units are not always whole
ones.  It is described here by the places between which it may start without finding anything else.
-/

namespace EmbeddedMarkup

open Cursor

variable {c d first : Cursor} {ch : Char} {rest text : List Char} {start onward : Bool}
  {length : Nat} {lexeme : Lexeme}

namespace HostScanner

/-- A scanner passes over blank space. -/
theorem next_skipBlanks (c : Cursor) (start : Bool) :
    HostScanner.next ⟨c.skipBlanks, start⟩ = HostScanner.next ⟨c, start⟩ := by
  rw [HostScanner.next, HostScanner.next, Cursor.skipBlanks_skipBlanks]

section Turns

variable {scanner : HostScanner} {ch : Char} {rest : List Char}

/-- At the end of a text a scanner finds nothing. -/
theorem next_of_ended (ended : scanner.cursor.skipBlanks.rest = []) :
    scanner.next = (.ok none, { scanner with cursor := scanner.cursor.skipBlanks }) := by
  rw [next]
  split
  · rfl
  · rename_i ahead
    rw [ended] at ahead
    cases ahead

/-- What a scanner does in front of more text depends on what is ahead. -/
theorem next_of_ahead (ahead : scanner.cursor.skipBlanks.rest = ch :: rest) :
    scanner.next =
      match hostAhead scanner.expressionStart ch rest with
      | .markup =>
          (.ok (some scanner.cursor.skipBlanks),
            { scanner with cursor := scanner.cursor.skipBlanks })
      | .pass unit =>
          next ⟨scanner.cursor.skipBlanks.advanceBy (unit.tail + 1), unit.expressionNext⟩
      | .unterminated cause =>
          (.error ⟨cause, scanner.cursor.skipBlanks.position⟩,
            { scanner with
              cursor := scanner.cursor.skipBlanks.advanceBy scanner.cursor.skipBlanks.size }) := by
  rw [next]
  split
  · rename_i ended
    rw [ahead] at ended
    cases ended
  · rename_i ahead'
    rw [ahead] at ahead'
    cases ahead'
    rfl

/-- In front of markup a scanner stops. -/
theorem next_of_markup
    (ahead : scanner.cursor.skipBlanks.rest = ch :: rest)
    (markup : hostAhead scanner.expressionStart ch rest = .markup) :
    scanner.next =
      (.ok (some scanner.cursor.skipBlanks),
        { scanner with cursor := scanner.cursor.skipBlanks }) := by
  rw [next_of_ahead ahead, markup]

/-- A scanner goes on behind a unit. -/
theorem next_of_pass
    {unit : HostUnit}
    (ahead : scanner.cursor.skipBlanks.rest = ch :: rest)
    (pass : hostAhead scanner.expressionStart ch rest = .pass unit) :
    scanner.next =
      next ⟨scanner.cursor.skipBlanks.advanceBy (unit.tail + 1), unit.expressionNext⟩ := by
  rw [next_of_ahead ahead, pass]

/-- A scanner reports a unit without its end. -/
theorem next_of_unterminated
    {cause : HostTextCause}
    (ahead : scanner.cursor.skipBlanks.rest = ch :: rest)
    (open_ : hostAhead scanner.expressionStart ch rest = .unterminated cause) :
    scanner.next =
      (.error ⟨cause, scanner.cursor.skipBlanks.position⟩,
        { scanner with
          cursor := scanner.cursor.skipBlanks.advanceBy scanner.cursor.skipBlanks.size }) := by
  rw [next_of_ahead ahead, open_]

end Turns

/-- A scanner passes over a unit. -/
theorem next_pass
    (ahead : c.rest = ch :: rest)
    (visible : isBlank ch = false)
    (pass : hostAhead start ch rest = .pass ⟨length, onward⟩) :
    HostScanner.next ⟨c, start⟩ = HostScanner.next ⟨c.advanceBy (length + 1), onward⟩ := by
  have here := skipBlanks_of_peek? (peek?_eq_some_iff.mpr ⟨rest, ahead⟩) visible
  rw [next_of_pass (by rwa [here]) pass, here]

end HostScanner

/-- What passes a test that no separator passes is not blank. -/
theorem isBlank_eq_false_of_stops
    {p : Char → Bool}
    (stops : StopsAtSeparators p)
    (passes : p ch = true) :
    isBlank ch = false := by
  cases blank : isBlank ch with
  | false => rfl
  | true =>
      rw [stops ch (mem_separators_of_isBlank blank)] at passes
      cases passes

/-- The characters that start units other than numerals, words and punctuation. -/
def unitMarks : List Char :=
  ['<', '?', '/', '#', '\'', '"', '\x60', '$']

/-- What starts with punctuation, where a cast may be behind it. -/
def castAhead : Option Nat → HostAhead
  | some length => .pass ⟨length, true⟩
  | none => .pass ⟨0, true⟩

/-- What starts with none of the marks is a numeral, a word or punctuation. -/
theorem hostAhead_of_unmarked (unmarked : ch ∉ unitMarks) :
    hostAhead start ch rest =
      if ch.isDigit then .pass ⟨(rest.takeWhile isHostNumberChar).length, false⟩
      else if startsHostWord ch then wordAhead ch rest
      else if ch = ')' ∨ ch = ']' then .pass ⟨0, false⟩
      else if (ch = '+' ∨ ch = '-') ∧ rest.head? = some ch then .pass ⟨1, false⟩
      else castAhead (if start = true ∧ ch = '(' then castTail? rest else none) := by
  simp only [unitMarks, List.mem_cons, List.not_mem_nil, or_false, not_or] at unmarked
  obtain ⟨less, question, slash, hash, single, double, back, dollar⟩ := unmarked
  simp [hostAhead, startsMarkup, endsHostCode, List.isPrefixOf, less, Ne.symm less,
    Ne.symm question, Ne.symm slash, hash, single, double, back, dollar]
  rfl

/-- A sign that is doubled is a unit with its double. -/
theorem hostAhead_sign (signed : ch = '+' ∨ ch = '-') :
    hostAhead start ch rest =
      if rest.head? = some ch then .pass ⟨1, false⟩ else .pass ⟨0, true⟩ := by
  have sign : ch ∉ unitMarks ∧ ch.isDigit = false ∧ startsHostWord ch = false ∧ ch ≠ ')' ∧
      ch ≠ ']' ∧ ch ≠ '(' := by
    rcases signed with rfl | rfl <;> decide
  obtain ⟨unmarked, digit, word, parenthesis, bracket, opening⟩ := sign
  simp [hostAhead_of_unmarked unmarked, signed, digit, word, parenthesis, bracket, opening,
    castAhead]

/-- Punctuation that is a unit wherever it stands, behind which an expression may start. -/
def plainPunctuation : List Char :=
  ['=', '!', '.', '&', '|', '*', '%', ':', ';', '\x7b', '\x7d', ',', '>', '[']

theorem hostAhead_plain (plain : ch ∈ plainPunctuation) :
    hostAhead start ch rest = .pass ⟨0, true⟩ := by
  have other : ∀ ch ∈ plainPunctuation, ch ∉ unitMarks ∧ ch.isDigit = false ∧
      startsHostWord ch = false ∧ ch ≠ ')' ∧ ch ≠ ']' ∧ ch ≠ '+' ∧ ch ≠ '-' ∧ ch ≠ '(' := by
    decide
  obtain ⟨unmarked, digit, word, parenthesis, bracket, plus, minus, opening⟩ := other ch plain
  simp [hostAhead_of_unmarked unmarked, digit, word, parenthesis, bracket, plus, minus, opening,
    castAhead]

theorem HostScanner.next_plainChar
    (ahead : c.peek? = some ch)
    (plain : ch ∈ plainPunctuation) :
    HostScanner.next ⟨c, start⟩ = HostScanner.next ⟨c.advance, true⟩ := by
  have visible : ∀ ch ∈ plainPunctuation, isBlank ch = false := by decide
  obtain ⟨rest, ahead⟩ := peek?_eq_some_iff.mp ahead
  exact next_pass ahead (visible ch plain) (hostAhead_plain plain)

/-- A scanner passes over plain punctuation. -/
theorem HostScanner.next_plain
    (passes : c.Passes text d)
    (nonempty : text ≠ [])
    (plain : ∀ ch ∈ text, ch ∈ plainPunctuation) :
    HostScanner.next ⟨c, start⟩ = HostScanner.next ⟨d, true⟩ := by
  induction text generalizing c start with
  | nil => contradiction
  | cons ch text ih =>
      obtain ⟨here, behind⟩ := List.forall_mem_cons.mp plain
      obtain ⟨ahead, passes⟩ := passes_cons.mp passes
      rw [next_plainChar ahead here]
      cases text with
      | nil => rw [passes_nil.mp passes]
      | cons ch text => exact ih passes (List.cons_ne_nil _ _) behind

/-! ## Comments -/

/-- A line comment that does not hold the end of host code ends with its line. -/
theorem lineCommentLength_eq
    {cs : List Char}
    (keeps : ∀ n, n < (cs.takeWhile fun c => !isLineEnd c).length →
      endsHostCode (cs.drop n) = false) :
    lineCommentLength cs = (cs.takeWhile fun c => !isLineEnd c).length := by
  induction cs with
  | nil => rfl
  | cons ch cs ih =>
      rw [lineCommentLength]
      cases ends : isLineEnd ch with
      | true => simp [ends]
      | false =>
          have run : ((ch :: cs).takeWhile fun c => !isLineEnd c).length =
              (cs.takeWhile fun c => !isLineEnd c).length + 1 := by
            simp [ends]
          rw [run] at keeps ⊢
          have here : endsHostCode (ch :: cs) = false := keeps 0 (Nat.succ_pos _)
          rw [ih fun n inside => keeps (n + 1) (Nat.succ_lt_succ inside)]
          simp [here]

/-- A scanner passes over a comment that does not hold the end of host code. -/
theorem HostScanner.next_comment
    (found : CommentReading.ofChars c.rest = .comment length)
    (keeps : c.startsWith "/*" = false →
      ∀ n, n < length → endsHostCode (c.rest.drop n) = false) :
    HostScanner.next ⟨c, start⟩ = HostScanner.next ⟨c.advanceBy length, start⟩ := by
  unfold CommentReading.ofChars at found
  split at found
  · cases found
  · rename_i rest _ ahead
    cases found
    have line : c.startsWith "/*" = false := by
      rw [startsWith, ahead]
      rfl
    rw [ahead] at keeps
    have run := lineCommentLength_eq fun n inside => keeps line (n + 1) (Nat.succ_lt_succ inside)
    have unit : hostAhead start '#' rest = .pass ⟨lineCommentLength rest, start⟩ := by
      cases start <;> rfl
    rw [next_pass ahead (by decide) unit, run]
  · rename_i rest ahead
    cases found
    have line : c.startsWith "/*" = false := by
      rw [startsWith, ahead]
      rfl
    rw [ahead] at keeps
    have run := lineCommentLength_eq fun n inside =>
      keeps line (n + 2) (Nat.succ_lt_succ (Nat.succ_lt_succ inside))
    have unit : hostAhead start '/' ('/' :: rest) = .pass ⟨lineCommentLength rest + 1, start⟩ := by
      cases start <;> rfl
    rw [next_pass ahead (by decide) unit, run]
  · rename_i rest ahead
    split at found
    · rename_i tail closed
      cases found
      have unit : hostAhead start '/' ('*' :: rest) = commentAhead start rest := by
        cases start <;> rfl
      rw [commentAhead, closed] at unit
      rw [next_pass ahead (by decide) unit]
    · cases found
  · cases found

/-- A scanner passes over trivia in which no line comment holds the end of host code. -/
theorem KeepsHostCode.next
    (keeps : KeepsHostCode c)
    (skipped : skipTrivia c = ⟨.ok (), first⟩) :
    HostScanner.next ⟨c, start⟩ = HostScanner.next ⟨first, start⟩ := by
  induction keeps with
  | plain absent =>
      rw [skipTrivia_eq_skipBlanks absent] at skipped
      cases skipped
      rw [HostScanner.next_skipBlanks]
  | comment found keeps _ ih =>
      rw [skipTrivia_comment found] at skipped
      rw [← HostScanner.next_skipBlanks, HostScanner.next_comment found keeps, ih skipped]

/-! ## Strings -/

/--
A string literal ends for a scanner where it ends for a reader, if it ends.  They part at a
backslash that escapes nothing, but what follows it is no quote and no backslash then, so they meet
again behind it.
-/
theorem quotedTail?_eq_map_readString?
    {quote : Char}
    {cs : List Char}
    (plain : quote ≠ '\\') :
    quotedTail? quote cs = (readString? quote cs).map StringReading.length := by
  fun_induction readString? quote cs with
  | case1 => rfl
  | case2 cs => exact quotedTail?_of_closing plain
  | case3 => rfl
  | case4 escaped cs meaning escapes open_ ih =>
      rw [quotedTail?, ih, Option.map_map, Option.map_map]
      congr 1
      funext reading
      exact Nat.add_comm _ _
  | case5 escaped cs unescaped open_ ih =>
      have other : escaped ≠ '\\' ∧ escaped ≠ quote := by
        rw [← not_or]
        intro same
        rw [escape?, if_pos same] at unescaped
        cases unescaped
      have behind : (quotedTail? quote cs).map (· + 2) =
          (quotedTail? quote (escaped :: cs)).map (· + 1) := by
        rw [quotedTail?_cons other.1 other.2, Option.map_map]
        rfl
      rw [quotedTail?, behind, ih, Option.map_map, Option.map_map]
      congr 1
      funext reading
      exact Nat.add_comm _ _
  | case6 ch cs open_ visible ih =>
      rw [quotedTail?_cons visible open_, ih, Option.map_map, Option.map_map]
      congr 1
      funext reading
      exact Nat.add_comm _ _

/-- A string literal that a reader reads ends there for a scanner. -/
theorem quotedTail?_of_readString?
    {quote : Char}
    {cs : List Char}
    {reading : StringReading}
    (plain : quote ≠ '\\')
    (found : readString? quote cs = some reading) :
    quotedTail? quote cs = some reading.length := by
  rw [quotedTail?_eq_map_readString? plain, found]
  rfl

/-! ## Lexemes -/

/-- What a lexeme that starts with a character was read as. -/
inductive StartsLexeme (first : Char) (rest : List Char) (length : Nat) : Lexeme → Prop
  | number {lexeme : Lexeme} :
      lexeme.isNumber = true →
      LexemeReading.startsNumeral first rest = true →
      LexemeReading.numeral first rest = .found lexeme length →
      StartsLexeme first rest length lexeme
  | string {value : String} :
      first = '\'' ∨ first = '"' →
      LexemeReading.string first rest = .found (.string value) length →
      StartsLexeme first rest length (.string value)
  | variable {name : String} :
      first = '$' →
      LexemeReading.variableName rest = .found (.variable name) length →
      StartsLexeme first rest length (.variable name)
  | word {kind : WordKind} {name : String} :
      (isIdentifierStart first || first == '\\') = true →
      LexemeReading.word (first :: rest) = .found (.word kind name) length →
      StartsLexeme first rest length (.word kind name)
  | symbol {kind : Symbol} :
      LexemeReading.symbol first rest = .found (.symbol kind) length →
      StartsLexeme first rest length (.symbol kind)

theorem startsLexeme_of_startingWith
    (read : LexemeReading.startingWith ch rest = .found lexeme length) :
    StartsLexeme ch rest length lexeme := by
  unfold LexemeReading.startingWith at read
  split at read
  · rename_i starts
    exact .number (LexemeReading.isNumber_of_numeral (congrArg _ read)) starts read
  · split at read
    · rename_i quote
      have string := read
      unfold LexemeReading.string at read
      split at read <;> cases read
      exact .string quote string
    · split at read
      · rename_i dollar
        have named := read
        unfold LexemeReading.variableName at read
        split at read <;> cases read
        exact .variable dollar named
      · split at read
        · rename_i starts
          have worded := read
          cases read
          exact .word starts worded
        · have symbol := read
          unfold LexemeReading.symbol at read
          split at read <;> cases read
          exact .symbol symbol

/-- Every lexeme but the end of the input starts with a character. -/
theorem exists_startsLexeme
    {cs : List Char}
    (read : LexemeReading.ofChars cs = .found lexeme length)
    (more : lexeme ≠ .endOfInput) :
    ∃ ch rest, cs = ch :: rest ∧ StartsLexeme ch rest length lexeme := by
  cases cs with
  | nil =>
      cases read
      contradiction
  | cons ch rest => exact ⟨ch, rest, rfl, startsLexeme_of_startingWith read⟩

/-- A symbol that is read is the symbol of a spelling that is ahead. -/
theorem exists_entry_of_symbol
    (read : LexemeReading.symbol ch rest = .found lexeme length) :
    ∃ entry ∈ symbolSpellings, entry.1.toList <+: ch :: rest ∧ entry.1.toList.head? = some ch ∧
      lexeme = .symbol entry.2 ∧ length = entry.1.toList.length := by
  unfold LexemeReading.symbol at read
  split at read
  · rename_i spelling kind found
    cases read
    have entry := List.mem_of_find?_eq_some found
    have start := List.find?_some found
    dsimp only at start
    rw [List.isPrefixOf_iff_prefix] at start
    refine ⟨_, entry, start, ?_, rfl, rfl⟩
    obtain ⟨first, text, spelled⟩ :=
      List.exists_cons_of_ne_nil (LexemeReading.spelling_ne_nil _ entry)
    dsimp only at spelled start ⊢
    rw [spelled] at start ⊢
    obtain ⟨rfl, -⟩ := List.cons_prefix_cons.mp start
    rfl
  · cases read

/-- The spellings of symbols, of which only one has two. -/
theorem symbolSpellings_cases :
    ∀ entry ∈ symbolSpellings,
      entry.1 = entry.2.spelling ∨ (entry.1 = "<>" ∧ entry.2 = .notEqual) := by
  decide

/-- A symbol that is read is spelled by one of its spellings. -/
theorem passes_of_symbol
    {kind : Symbol}
    (read : LexemeReading.ofChars c.rest = .found (.symbol kind) length) :
    c.Passes kind.spelling.toList (c.advanceBy length) ∨
      kind = .notEqual ∧ c.Passes "<>".toList (c.advanceBy length) := by
  obtain ⟨ch, rest, ahead, starts⟩ := exists_startsLexeme read (by simp)
  cases starts with
  | number number => cases number
  | symbol symbol =>
      obtain ⟨⟨spelling, kind'⟩, entry, ⟨behind, split⟩, -, same, rfl⟩ :=
        exists_entry_of_symbol symbol
      cases same
      have passes := passes_advanceBy (ahead.trans split.symm)
      rcases symbolSpellings_cases _ entry with same | ⟨same, other⟩
      · exact .inl (same ▸ passes)
      · obtain rfl : spelling = "<>" := same
        exact .inr ⟨other, passes⟩

/-- A symbol with one spelling is read off it. -/
theorem passes_spelling
    {kind : Symbol}
    (read : LexemeReading.ofChars c.rest = .found (.symbol kind) length)
    (other : kind ≠ .notEqual) :
    c.Passes kind.spelling.toList (c.advanceBy length) := by
  rcases passes_of_symbol read with passes | ⟨same, -⟩
  · exact passes
  · exact absurd same other

theorem isBeyondAscii_of_isIdentifierChar (isChar : isIdentifierChar ch = true) :
    isBeyondAscii ch = false := by
  simp only [isIdentifierChar, Char.isAlphanum, Bool.or_eq_true, isAlpha_iff, isDigit_iff,
    beq_iff_eq] at isChar
  rw [isBeyondAscii, decide_eq_false_iff_not]
  rcases isChar with letter | rfl
  · omega
  · decide

/-- Every lexeme starts with a character of ASCII. -/
theorem StartsLexeme.isBeyondAscii (starts : StartsLexeme ch rest length lexeme) :
    EmbeddedMarkup.isBeyondAscii ch = false := by
  cases starts with
  | number _ starts =>
      simp only [LexemeReading.startsNumeral, Bool.or_eq_true, Bool.and_eq_true,
        beq_iff_eq] at starts
      rcases starts with digit | ⟨rfl, -⟩
      · apply isBeyondAscii_of_isIdentifierChar
        rw [isIdentifierChar, Char.isAlphanum, digit, Bool.or_true, Bool.true_or]
      · decide
  | string quote => rcases quote with rfl | rfl <;> decide
  | «variable» dollar =>
      subst dollar
      decide
  | word starts =>
      rcases Bool.or_eq_true_iff.mp starts with letter | backslash
      · exact isBeyondAscii_of_isIdentifierChar (isIdentifierChar_of_isIdentifierStart letter)
      · rw [beq_iff_eq.mp backslash]
        decide
  | symbol symbol =>
      obtain ⟨entry, member, -, head, -⟩ := exists_entry_of_symbol symbol
      have plain : ∀ entry ∈ symbolSpellings, ∀ ch ∈ entry.1.toList,
          EmbeddedMarkup.isBeyondAscii ch = false := by
        decide
      exact plain entry member ch (List.mem_of_head? head)

/-- A lexeme that may continue a numeral, but is no number, is a word or made of points. -/
theorem StartsLexeme.of_isHostNumberChar
    (starts : StartsLexeme ch rest length lexeme)
    (continues : isHostNumberChar ch = true) :
    lexeme.isNumber = true ∨ (∃ kind name, lexeme = .word kind name) ∨ lexeme = .symbol .dot ∨
      lexeme = .symbol .ellipsis := by
  cases starts with
  | number number => exact .inl number
  | string quote => rcases quote with rfl | rfl <;> cases continues
  | «variable» dollar =>
      subst dollar
      cases continues
  | word => exact .inr (.inl ⟨_, _, rfl⟩)
  | symbol symbol =>
      obtain ⟨entry, member, -, head, same, -⟩ := exists_entry_of_symbol symbol
      have points : ∀ entry ∈ symbolSpellings, ∀ ch ∈ entry.1.toList,
          isHostNumberChar ch = true → entry.2 = .dot ∨ entry.2 = .ellipsis := by
        decide
      cases same
      rcases points entry member ch (List.mem_of_head? head) continues with same | same <;>
        simp [same]

/-- A lexeme that starts with one of these characters is a symbol. -/
theorem StartsLexeme.exists_entry
    (starts : StartsLexeme ch rest length lexeme)
    (mark : ch ∈ ['<', '>', '?', '+', '-', ')']) :
    ∃ entry ∈ symbolSpellings, entry.1.toList.head? = some ch ∧ lexeme = .symbol entry.2 := by
  have plain : ∀ ch ∈ ['<', '>', '?', '+', '-', ')'],
      ch.isDigit = false ∧ ch ≠ '.' ∧ ch ≠ '\'' ∧ ch ≠ '"' ∧
      ch ≠ '$' ∧ (isIdentifierStart ch || ch == '\\') = false := by
    decide
  obtain ⟨digit, point, single, double, dollar, word⟩ := plain ch mark
  cases starts with
  | number _ starts => simp [LexemeReading.startsNumeral, digit, point] at starts
  | string quote => simp [single, double] at quote
  | «variable» same => exact absurd same dollar
  | word starts =>
      rw [word] at starts
      cases starts
  | symbol symbol =>
      obtain ⟨entry, member, -, head, same, -⟩ := exists_entry_of_symbol symbol
      exact ⟨entry, member, head, same⟩

/-! ## Numerals -/

section Numerals

theorem isHostNumberChar_of_isDecimalChar (decimal : isDecimalChar ch = true) :
    isHostNumberChar ch = true := by
  simp only [isDecimalChar, isHostNumberChar, Char.isAlphanum, Bool.or_eq_true] at decimal ⊢
  rcases decimal with digit | separator
  · exact .inl (.inl (.inr digit))
  · exact .inr separator

theorem isAlphanum_of_isHexDigit (hex : isHexDigit ch = true) : ch.isAlphanum = true := by
  simp only [isHexDigit, Char.isAlphanum, Bool.or_eq_true, Bool.and_eq_true, decide_eq_true_eq,
    isAlpha_iff, isDigit_iff] at hex ⊢
  rcases hex with (digit | ⟨least, most⟩) | ⟨least, most⟩
  · exact .inr digit
  · have least : 97 ≤ ch.toNat := least
    have most : ch.toNat ≤ 102 := most
    omega
  · have least : 65 ≤ ch.toNat := least
    have most : ch.toNat ≤ 70 := most
    omega

theorem isHostNumberChar_of_mem_readHexadecimalRun (member : ch ∈ readHexadecimalRun rest) :
    isHostNumberChar ch = true := by
  have tested := forall_mem_takeWhile _ _ ch member
  simp only [isHostNumberChar, Bool.or_eq_true] at tested ⊢
  rcases tested with hex | separator
  · exact .inl (.inl (isAlphanum_of_isHexDigit hex))
  · exact .inr separator

/-- The sign of an exponent and its digits. -/
def IsSignedPart (text : List Char) : Prop :=
  ∃ sign digit digits, text = sign :: digit :: digits ∧ (sign = '+' ∨ sign = '-') ∧
    ∀ ch ∈ digit :: digits, ch.isDigit = true

/-- The text of a numeral, up to the sign of its exponent, and the text behind. -/
def IsNumeralText (text : List Char) : Prop :=
  ∃ run tail, text = run ++ tail ∧ (∀ ch ∈ run, isHostNumberChar ch = true) ∧
    (tail = [] ∨ IsSignedPart tail)

theorem Numeral.isNumeralText {numeral : Numeral} (wellFormed : numeral.WellFormed) :
    IsNumeralText numeral.text := by
  obtain ⟨whole, fraction, exponent⟩ := numeral
  obtain ⟨isWhole, isFraction, isExponent⟩ := wellFormed
  have mantissa : ∀ ch ∈ mantissaText whole fraction, isHostNumberChar ch = true := by
    intro ch member
    cases fraction with
    | none => exact isHostNumberChar_of_isDecimalChar (isWhole ch member)
    | some digits =>
        rcases List.mem_append.mp member with inside | behind
        · exact isHostNumberChar_of_isDecimalChar (isWhole ch inside)
        · rcases List.mem_cons.mp behind with rfl | behind
          · decide
          · exact isHostNumberChar_of_isDecimalChar (isFraction digits rfl ch behind)
  cases exponent with
  | none => exact ⟨_, [], by simp [text], mantissa, .inl rfl⟩
  | some part =>
      obtain ⟨marker, sign, digits⟩ := part
      obtain ⟨isMarker, isSign, nonempty, areDigits⟩ := isExponent _ rfl
      have marked : isHostNumberChar marker = true := by
        rcases isMarker with same | same <;> rw [show marker = _ from same] <;> decide
      cases sign with
      | none =>
          refine ⟨mantissaText whole fraction ++ marker :: digits, [], ?_, ?_, .inl rfl⟩
          · simp [text, ExponentPart.text]
          · intro ch member
            rcases List.mem_append.mp member with inside | behind
            · exact mantissa ch inside
            · rcases List.mem_cons.mp behind with rfl | behind
              · exact marked
              · apply isHostNumberChar_of_isDecimalChar
                rw [isDecimalChar, areDigits ch behind, Bool.true_or]
      | some sign =>
          refine ⟨mantissaText whole fraction ++ [marker], sign :: digits, ?_, ?_, .inr ?_⟩
          · simp [text, ExponentPart.text]
          · intro ch member
            rcases List.mem_append.mp member with inside | behind
            · exact mantissa ch inside
            · rwa [List.mem_singleton.mp behind]
          · cases digits with
            | nil => contradiction
            | cons digit digits =>
                refine ⟨sign, digit, digits, rfl, ?_, areDigits⟩
                simpa using isSign sign rfl

/-- What is read as a number is the text of a numeral. -/
theorem exists_isNumeralText
    (ahead : c.rest = ch :: rest)
    (read : LexemeReading.numeral ch rest = .found lexeme length) :
    ∃ text, IsNumeralText text ∧ c.Passes text (c.advanceBy length) := by
  have inside {text : List Char} (start : text <+: c.rest) :
      c.Passes text (c.advanceBy text.length) := by
    obtain ⟨behind, split⟩ := start
    exact passes_advanceBy split.symm
  have hexadecimal {marker : Char} {behind : List Char}
      (zero : c.rest = '0' :: marker :: behind)
      (marked : isHostNumberChar marker = true)
      (read : LexemeReading.hexadecimal marker behind = .found lexeme length) :
      ∃ text, IsNumeralText text ∧ c.Passes text (c.advanceBy length) := by
    have taken : length = (readHexadecimalRun behind).length + 2 := by
      unfold LexemeReading.hexadecimal at read
      dsimp only at read
      split at read <;> cases read
      rfl
    have run : readHexadecimalRun behind <+: behind := List.takeWhile_prefix _
    have tested : ∀ ch ∈ '0' :: marker :: readHexadecimalRun behind,
        isHostNumberChar ch = true := by
      intro ch member
      rcases List.mem_cons.mp member with rfl | member
      · decide
      · rcases List.mem_cons.mp member with rfl | member
        · exact marked
        · exact isHostNumberChar_of_mem_readHexadecimalRun member
    refine ⟨'0' :: marker :: readHexadecimalRun behind, ⟨_, [], by simp, tested, .inl rfl⟩, ?_⟩
    rw [taken]
    apply inside
    rw [zero]
    exact (List.prefix_cons_inj _).mpr ((List.prefix_cons_inj _).mpr run)
  unfold LexemeReading.numeral at read
  split at read
  · exact hexadecimal ahead (by decide) read
  · exact hexadecimal ahead (by decide) read
  · have taken : length = (Numeral.read c.rest).text.length := by
      rw [ahead]
      exact LexemeReading.length_eq_of_decimal read
    rw [taken]
    exact ⟨_, Numeral.isNumeralText (Numeral.wellFormed_read _), inside (Numeral.prefix_text _)⟩

/-- A scanner takes a digit and all that may continue a numeral. -/
theorem HostScanner.next_digit
    (ahead : c.peek? = some ch)
    (digit : ch.isDigit = true) :
    HostScanner.next ⟨c, start⟩ = HostScanner.next ⟨c.skipWhile isHostNumberChar, false⟩ := by
  obtain ⟨rest, behind⟩ := peek?_eq_some_iff.mp ahead
  have unmarked : ch ∉ unitMarks := by
    intro member
    have none : ∀ ch ∈ unitMarks, ch.isDigit = false := by decide
    rw [none ch member] at digit
    cases digit
  have unit : hostAhead start ch rest =
      .pass ⟨(rest.takeWhile isHostNumberChar).length, false⟩ := by
    rw [hostAhead_of_unmarked unmarked, if_pos digit]
  have visible := isBlank_eq_false_of_stops (by decide) digit
  have continues : isHostNumberChar ch = true :=
    isHostNumberChar_of_isDecimalChar (by rw [isDecimalChar, digit, Bool.true_or])
  rw [next_pass behind visible unit, skipWhile, textWhile, behind, List.takeWhile_cons,
    if_pos continues, List.length_cons]

/-- A scanner that takes all that may continue a numeral goes on in it. -/
theorem HostScanner.next_isNumeralText
    (numeral : IsNumeralText text)
    (passes : c.Passes text d) :
    HostScanner.next ⟨c.skipWhile isHostNumberChar, false⟩ =
      HostScanner.next ⟨d.skipWhile isHostNumberChar, false⟩ := by
  obtain ⟨run, tail, rfl, tested, rfl | ⟨sign, digit, digits, rfl, signed, areDigits⟩⟩ := numeral
  · rw [List.append_nil] at passes
    rw [passes.skipWhile_eq tested]
  · obtain ⟨middle, before, behind⟩ := passes_append.mp passes
    obtain ⟨next, behind⟩ := passes_cons.mp behind
    have ends : isHostNumberChar sign = false := by
      rcases signed with rfl | rfl <;> decide
    have still : middle.skipWhile isHostNumberChar = middle := by
      apply skipWhile_eq_self
      intro ch ahead
      rw [next] at ahead
      cases ahead
      exact ends
    have isDigit : digit.isDigit = true := areDigits digit List.mem_cons_self
    have digitNext := (passes_cons.mp behind).1
    obtain ⟨more, ahead⟩ := peek?_eq_some_iff.mp next
    obtain ⟨more', ahead'⟩ := peek?_eq_some_iff.mp digitNext
    rw [rest_advance, ahead, List.drop_one, List.tail_cons] at ahead'
    subst ahead'
    have unit : hostAhead false sign (digit :: more') = .pass ⟨0, true⟩ := by
      rw [hostAhead_sign signed, if_neg]
      intro double
      cases double
      rcases signed with rfl | rfl <;> cases isDigit
    have visible : isBlank sign = false := by
      rcases signed with rfl | rfl <;> decide
    rw [before.skipWhile_eq tested, still, next_pass ahead visible unit, Nat.zero_add,
      ← advance_eq_advanceBy, next_digit digitNext isDigit, behind.skipWhile_eq]
    intro ch member
    apply isHostNumberChar_of_isDecimalChar
    rw [isDecimalChar, areDigits ch member, Bool.true_or]

/-- A number that is read starts like one. -/
theorem exists_numeral_of_isNumber
    (read : LexemeReading.ofChars c.rest = .found lexeme length)
    (number : lexeme.isNumber = true) :
    ∃ ch rest, c.rest = ch :: rest ∧ LexemeReading.startsNumeral ch rest = true ∧
      LexemeReading.numeral ch rest = .found lexeme length := by
  have more : lexeme ≠ .endOfInput := by
    rintro rfl
    cases number
  obtain ⟨ch, rest, ahead, starts⟩ := exists_startsLexeme read more
  cases starts with
  | number _ starts numeral => exact ⟨ch, rest, ahead, starts, numeral⟩
  | _ => cases number

section Numbers

variable
  (read : LexemeReading.ofChars c.rest = .found lexeme length)
  (number : lexeme.isNumber = true)

include read number

/-- A scanner that takes all that may continue a numeral passes over a number. -/
theorem HostScanner.next_skipNumber :
    HostScanner.next ⟨c.skipWhile isHostNumberChar, false⟩ =
      HostScanner.next ⟨(c.advanceBy length).skipWhile isHostNumberChar, false⟩ := by
  obtain ⟨ch, rest, ahead, -, read⟩ := exists_numeral_of_isNumber read number
  obtain ⟨text, numeral, passes⟩ := exists_isNumeralText ahead read
  exact next_isNumeralText numeral passes

/-- A scanner passes over a number and all that may continue it. -/
theorem HostScanner.next_number :
    HostScanner.next ⟨c, start⟩ =
      HostScanner.next ⟨(c.advanceBy length).skipWhile isHostNumberChar, false⟩ := by
  obtain ⟨ch, rest, ahead, starts, -⟩ := exists_numeral_of_isNumber read number
  rw [← next_skipNumber read number]
  simp only [LexemeReading.startsNumeral, Bool.or_eq_true, Bool.and_eq_true, beq_iff_eq] at starts
  rcases starts with digit | ⟨rfl, digit⟩
  · exact next_digit (peek?_eq_some_iff.mpr ⟨rest, ahead⟩) digit
  · have point : c.Passes ['.'] c.advance := ⟨by rw [rest_advance, ahead]; rfl, rfl⟩
    cases rest with
    | nil => cases digit
    | cons second rest =>
        have next : c.advance.peek? = some second := by
          rw [peek?, rest_advance, ahead]
          rfl
        rw [next_plain point (by decide) (by decide), next_digit next digit,
          ← point.skipWhile_eq (by decide)]

end Numbers

end Numerals

/-! ## Words, variables and strings -/

theorem startsHostWord_of_start (starts : (isIdentifierStart ch || ch == '\\') = true) :
    startsHostWord ch = true := by
  rw [startsHostWord, starts, Bool.true_or]

theorem not_mem_unitMarks (starts : (isIdentifierStart ch || ch == '\\') = true) :
    ch ∉ unitMarks := by
  intro member
  have none : ∀ ch ∈ unitMarks, (isIdentifierStart ch || ch == '\\') = false := by decide
  rw [none ch member] at starts
  cases starts

/-- A word that is read ends where its run of characters does. -/
theorem word_of_read
    {kind : WordKind}
    {name : String}
    (read : LexemeReading.ofChars c.rest = .found (.word kind name) length) :
    ∃ ch rest, c.rest = ch :: rest ∧ (isIdentifierStart ch || ch == '\\') = true ∧
      name.toList = c.textWhile isNameChar ∧ c.advanceBy length = c.skipWhile isNameChar := by
  obtain ⟨ch, rest, ahead, starts⟩ := exists_startsLexeme read (by simp)
  cases starts with
  | number number => cases number
  | word starts worded =>
      cases worded
      refine ⟨ch, rest, ahead, starts, ?_, ?_⟩
      · rw [String.toList_ofList, textWhile, ahead]
      · rw [skipWhile, textWhile, ahead]

theorem isHostNumberChar_of_isNameChar
    (isChar : isNameChar ch = true)
    (plain : ch ≠ '\\') :
    isHostNumberChar ch = true := by
  simp only [isNameChar, isIdentifierChar, Bool.or_eq_true, beq_iff_eq, plain, or_false] at isChar
  simp only [isHostNumberChar, Bool.or_eq_true, beq_iff_eq]
  exact isChar.imp_left .inl

theorem isHostWordChar_of_isNameChar (isChar : isNameChar ch = true) :
    isHostWordChar ch = true := by
  rw [isNameChar] at isChar
  rw [isHostWordChar, isChar, Bool.true_or]

/-- The characters of a name are those of a word of host text, unless more follow beyond ASCII. -/
theorem textWhile_isHostWordChar
    (ends : ∀ ch, (c.skipWhile isNameChar).peek? = some ch → isBeyondAscii ch = false) :
    c.textWhile isHostWordChar = c.textWhile isNameChar := by
  apply (c.passes_skipWhile isNameChar).textWhile
  · exact fun ch member => isHostWordChar_of_isNameChar (forall_mem_takeWhile _ _ ch member)
  · intro ch ahead
    have stops := fails_of_peek?_skipWhile ahead
    rw [isNameChar] at stops
    rw [isHostWordChar, ends ch ahead, stops, Bool.false_or]

/-- A scanner passes over a word, unless it goes on with characters beyond ASCII. -/
theorem HostScanner.next_word
    {kind : WordKind}
    {name : String}
    (read : LexemeReading.ofChars c.rest = .found (.word kind name) length)
    (ends : ∀ ch, (c.advanceBy length).peek? = some ch → isBeyondAscii ch = false) :
    HostScanner.next ⟨c, start⟩ =
      HostScanner.next ⟨c.advanceBy length, isAmongWords name.toList expressionKeywords⟩ := by
  obtain ⟨ch, rest, ahead, starts, spelled, reached⟩ := word_of_read read
  rw [reached] at ends ⊢
  have isChar : isNameChar ch = true := by
    simp only [isNameChar, Bool.or_eq_true] at starts ⊢
    exact starts.imp_left isIdentifierChar_of_isIdentifierStart
  have run : ch :: rest.takeWhile isHostWordChar = name.toList := by
    rw [spelled, ← textWhile_isHostWordChar ends, textWhile, ahead, List.takeWhile_cons,
      if_pos (isHostWordChar_of_isNameChar isChar)]
  have unit : hostAhead start ch rest =
      .pass ⟨(rest.takeWhile isHostWordChar).length,
        isAmongWords name.toList expressionKeywords⟩ := by
    have digit : ch.isDigit = false := by
      rcases Bool.or_eq_true_iff.mp starts with letter | backslash
      · exact isDigit_eq_false_of_isIdentifierStart letter
      · rw [beq_iff_eq.mp backslash]
        decide
    rw [hostAhead_of_unmarked (not_mem_unitMarks starts), digit, if_neg Bool.false_ne_true,
      if_pos (startsHostWord_of_start starts), wordAhead, run]
  rw [next_pass ahead (isBlank_eq_false_of_stops (by decide) isChar) unit, skipWhile, ← spelled,
    ← run, List.length_cons]

/-- A scanner passes over a variable. -/
theorem HostScanner.next_variable
    {name : String}
    (read : LexemeReading.ofChars c.rest = .found (.variable name) length) :
    HostScanner.next ⟨c, start⟩ = HostScanner.next ⟨c.advanceBy length, false⟩ := by
  obtain ⟨ch, rest, ahead, starts⟩ := exists_startsLexeme read (by simp)
  cases starts with
  | number number => cases number
  | «variable» dollar named =>
      subst dollar
      unfold LexemeReading.variableName at named
      split at named <;> cases named
      exact next_pass ahead (by decide) (by cases start <;> rfl)

/-- A scanner passes over a string literal. -/
theorem HostScanner.next_string
    {value : String}
    (read : LexemeReading.ofChars c.rest = .found (.string value) length) :
    HostScanner.next ⟨c, start⟩ = HostScanner.next ⟨c.advanceBy length, false⟩ := by
  obtain ⟨ch, rest, ahead, starts⟩ := exists_startsLexeme read (by simp)
  cases starts with
  | number number => cases number
  | string quote string =>
      unfold LexemeReading.string at string
      split at string <;> cases string
      rename_i reading closed
      have unit : hostAhead start ch rest = stringAhead ch rest := by
        rcases quote with rfl | rfl <;> cases start <;> rfl
      have plain : isBlank ch = false ∧ ch ≠ '\\' := by
        rcases quote with rfl | rfl <;> decide
      rw [stringAhead, quotedTail?_of_readString? plain.2 closed] at unit
      exact next_pass ahead plain.1 unit

/-! ## Punctuation -/

theorem peek?_advance (ahead : c.rest = ch :: rest) : c.advance.peek? = rest.head? := by
  rw [peek?, rest_advance, ahead]
  rfl

namespace HostScanner

/-- A scanner passes over a question mark that is not the end of host code. -/
theorem next_question
    (ahead : c.peek? = some '?')
    (goes_on : c.advance.peek? ≠ some '>') :
    HostScanner.next ⟨c, start⟩ = HostScanner.next ⟨c.advance, true⟩ := by
  obtain ⟨rest, ahead⟩ := peek?_eq_some_iff.mp ahead
  have unit : hostAhead start '?' rest = .pass ⟨0, true⟩ := by
    have second : endsHostCode ('?' :: rest) = false := by
      cases rest with
      | nil => rfl
      | cons ch rest =>
          rw [peek?_advance ahead] at goes_on
          have other : ch ≠ '>' := by
            rintro rfl
            exact goes_on rfl
          simp [endsHostCode, List.isPrefixOf, Ne.symm other]
    simp [hostAhead, startsMarkup, List.isPrefixOf, second, startsHostWord, isIdentifierStart,
      isBeyondAscii]
  exact next_pass ahead (by decide) unit

/-- A scanner passes over a sign that is not doubled. -/
theorem next_sign
    (signed : ch = '+' ∨ ch = '-')
    (ahead : c.peek? = some ch)
    (single : c.advance.peek? ≠ some ch) :
    HostScanner.next ⟨c, start⟩ = HostScanner.next ⟨c.advance, true⟩ := by
  obtain ⟨rest, ahead⟩ := peek?_eq_some_iff.mp ahead
  have unit : hostAhead start ch rest = .pass ⟨0, true⟩ := by
    rw [peek?_advance ahead] at single
    rw [hostAhead_sign signed, if_neg single]
  have visible : isBlank ch = false := by
    rcases signed with rfl | rfl <;> decide
  exact next_pass ahead visible unit

/-- A scanner passes over two minus signs at once. -/
theorem next_doubleMinus
    (ahead : c.peek? = some '-')
    (double : c.advance.peek? = some '-') :
    HostScanner.next ⟨c, start⟩ = HostScanner.next ⟨c.advance.advance, false⟩ := by
  obtain ⟨rest, ahead⟩ := peek?_eq_some_iff.mp ahead
  have unit : hostAhead start '-' rest = .pass ⟨1, false⟩ := by
    rw [peek?_advance ahead] at double
    rw [hostAhead_sign (.inr rfl), if_pos double]
  exact next_pass ahead (by decide) unit

/-- A scanner passes over a `<` that compares. -/
theorem next_less
    (ahead : c.peek? = some '<')
    (plain : start = true → startsMarkup c.rest = false)
    (question : c.advance.peek? ≠ some '?')
    (shift : ¬['<', '<'] <+: c.advance.rest) :
    HostScanner.next ⟨c, start⟩ = HostScanner.next ⟨c.advance, true⟩ := by
  obtain ⟨rest, ahead⟩ := peek?_eq_some_iff.mp ahead
  rw [peek?_advance ahead] at question
  rw [rest_advance, ahead, List.drop_one, List.tail_cons] at shift
  rw [ahead] at plain
  have code (text : List Char) : ¬ '?' :: text <+: rest := by
    rintro ⟨behind, rfl⟩
    exact question rfl
  have unmarked : (start && startsMarkup ('<' :: rest)) = false := by
    cases start with
    | false => rfl
    | true => exact plain rfl
  have unit : hostAhead start '<' rest = .pass ⟨0, true⟩ := by
    simp [hostAhead, endsHostCode, List.isPrefixOf, startsHostWord, isIdentifierStart,
      isBeyondAscii, unmarked, code, shift]
  exact next_pass ahead (by decide) unit

/-- A scanner passes over a slash that opens no comment. -/
theorem next_slash
    (ahead : c.peek? = some '/')
    (absent : CommentReading.ofChars c.rest = .absent) :
    HostScanner.next ⟨c, start⟩ = HostScanner.next ⟨c.advance, true⟩ := by
  obtain ⟨rest, ahead⟩ := peek?_eq_some_iff.mp ahead
  rw [ahead] at absent
  have unit : hostAhead start '/' rest = .pass ⟨0, true⟩ := by
    cases rest with
    | nil => cases start <;> rfl
    | cons ch rest =>
        have other : ch ≠ '/' ∧ ch ≠ '*' := by
          constructor <;> rintro rfl
          · cases absent
          · rw [CommentReading.ofChars] at absent
            split at absent <;> cases absent
        simp [hostAhead, startsMarkup, endsHostCode, List.isPrefixOf, startsHostWord,
          isIdentifierStart, isBeyondAscii, Ne.symm other.1, Ne.symm other.2]
  exact next_pass ahead (by decide) unit

/-- A scanner passes over a closing bracket. -/
theorem next_closing
    (closes : ch = ')' ∨ ch = ']')
    (ahead : c.peek? = some ch) :
    HostScanner.next ⟨c, start⟩ = HostScanner.next ⟨c.advance, false⟩ := by
  obtain ⟨rest, ahead⟩ := peek?_eq_some_iff.mp ahead
  have unit : hostAhead start ch rest = .pass ⟨0, false⟩ := by
    rcases closes with rfl | rfl <;> cases start <;> rfl
  have visible : isBlank ch = false := by
    rcases closes with rfl | rfl <;> decide
  exact next_pass ahead visible unit

theorem hostAhead_parenthesis :
    hostAhead start '(' rest = castAhead (if start = true then castTail? rest else none) := by
  have word : startsHostWord '(' = false := by decide
  simp [hostAhead_of_unmarked (by decide : '(' ∉ unitMarks), word]

/-- A scanner passes over an opening parenthesis that starts no cast. -/
theorem next_opening
    (ahead : c.peek? = some '(')
    (noCast : start = true → castTail? c.advance.rest = none) :
    HostScanner.next ⟨c, start⟩ = HostScanner.next ⟨c.advance, true⟩ := by
  obtain ⟨rest, ahead⟩ := peek?_eq_some_iff.mp ahead
  rw [rest_advance, ahead, List.drop_one, List.tail_cons] at noCast
  have unit : hostAhead start '(' rest = .pass ⟨0, true⟩ := by
    rw [hostAhead_parenthesis]
    cases start with
    | false => rfl
    | true => rw [if_pos rfl, noCast rfl, castAhead]
  exact next_pass ahead (by decide) unit

/-- Where an expression may start, a scanner passes over a cast at once. -/
theorem next_cast
    (ahead : c.peek? = some '(')
    (cast : castTail? c.advance.rest = some length) :
    HostScanner.next ⟨c, true⟩ = HostScanner.next ⟨c.advance.advanceBy length, true⟩ := by
  obtain ⟨rest, ahead⟩ := peek?_eq_some_iff.mp ahead
  rw [rest_advance, ahead, List.drop_one, List.tail_cons] at cast
  have unit : hostAhead true '(' rest = .pass ⟨length, true⟩ := by
    rw [hostAhead_parenthesis, if_pos rfl, cast, castAhead]
  rw [next_pass ahead (by decide) unit]
  rfl

end HostScanner

end EmbeddedMarkup
