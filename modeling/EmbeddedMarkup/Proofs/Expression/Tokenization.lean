import EmbeddedMarkup.Proofs.HostText.Units
import EmbeddedMarkup.Proofs.Text.Slice

/-!
# Tokens tile their text

The tokens of a text stand one behind the other, up to the end, and between them there is nothing
but blank space and comments.  No token could be longer: behind a name no character continues it,
and no longer symbol starts where one was taken.  A token does not depend on what surrounds it: its
slice of the text, alone, makes the same token.
-/

namespace EmbeddedMarkup

open Cursor

variable {rest gap word cs : List Char} {lexeme : Lexeme} {length : Nat} {c d start stop : Cursor}
  {tokens : List Token} {token : Token} {text : String}

/-! ## Trivia -/

/--
The text, in front of `rest`, is made of blank space and comments.  A line comment ends in front
of a line end or at the end of the whole text, and a block comment at its first end.  A `#` in
front of a bracket opens no comment.
-/
inductive IsTrivia (rest : List Char) : List Char → Prop
  | nothing : IsTrivia rest []
  | blank {ch : Char} {gap : List Char} :
      isBlank ch = true →
      IsTrivia rest gap →
      IsTrivia rest (ch :: gap)
  | line {opening : String} {body gap : List Char} :
      opening = "//" ∨ opening = "#" ∧ (body ++ gap ++ rest).head? ≠ some '[' →
      (∀ ch ∈ body, isLineEnd ch = false) →
      (∀ ch, (gap ++ rest).head? = some ch → isLineEnd ch = true) →
      IsTrivia rest gap →
      IsTrivia rest (opening.toList ++ body ++ gap)
  | block {body gap : List Char} :
      IsCommentBody body →
      IsTrivia rest gap →
      IsTrivia rest ("/*".toList ++ body ++ "*/".toList ++ gap)

theorem take_length_takeWhile (p : Char → Bool) (cs : List Char) :
    cs.take (cs.takeWhile p).length = cs.takeWhile p :=
  (List.prefix_iff_eq_take.mp (List.takeWhile_prefix p)).symm

/-- The character behind a run does not continue it. -/
theorem fails_of_head?_dropWhile
    {p : Char → Bool}
    {ch : Char}
    (next : (cs.dropWhile p).head? = some ch) :
    p ch = false := by
  have ends := List.head?_dropWhile_not p cs
  rw [next] at ends
  simpa using ends

namespace IsTrivia

theorem blanks (blank : ∀ ch ∈ word, isBlank ch = true) (behind : IsTrivia rest gap) :
    IsTrivia rest (word ++ gap) := by
  induction word with
  | nil => exact behind
  | cons ch word ih =>
      exact .blank (blank ch List.mem_cons_self)
        (ih fun other member => blank other (List.mem_cons_of_mem ch member))

/-- The body of a line comment is what stands in front of the next line end. -/
theorem lineBody
    {opening : String}
    (opens : opening = "//" ∨ opening = "#" ∧ cs.head? ≠ some '[')
    (ahead : cs.dropWhile (fun ch => !isLineEnd ch) = gap ++ rest)
    (behind : IsTrivia rest gap) :
    IsTrivia rest (opening.toList ++ cs.takeWhile (fun ch => !isLineEnd ch) ++ gap) := by
  refine .line ?_ ?_ ?_ behind
  · rwa [List.append_assoc, ← ahead, List.takeWhile_append_dropWhile]
  · intro ch member
    simpa using forall_mem_takeWhile _ _ ch member
  · intro ch next
    rw [← ahead] at next
    simpa using fails_of_head?_dropWhile next

/-- A comment in front of trivia. -/
theorem comment
    (found : CommentReading.ofChars cs = .comment length)
    (ahead : cs.drop length = gap ++ rest)
    (behind : IsTrivia rest gap) :
    IsTrivia rest (cs.take length ++ gap) := by
  unfold CommentReading.ofChars at found
  split at found
  · cases found
  · rename_i cs bracket
    cases found
    rw [List.drop_succ_cons, drop_length_takeWhile] at ahead
    rw [List.take_succ_cons, take_length_takeWhile]
    refine @lineBody rest gap cs "#" (.inr ⟨rfl, ?_⟩) ahead behind
    intro next
    obtain ⟨more, rfl⟩ := List.head?_eq_some_iff.mp next
    exact bracket more rfl
  · rename_i cs
    cases found
    rw [List.drop_succ_cons, List.drop_succ_cons, drop_length_takeWhile] at ahead
    rw [List.take_succ_cons, List.take_succ_cons, take_length_takeWhile]
    exact @lineBody rest gap cs "//" (.inl rfl) ahead behind
  · rename_i cs
    split at found
    · rename_i tail closed
      cases found
      obtain ⟨body, more, isBody, rfl, rfl⟩ := blockCommentTail?_eq_some_iff.mp closed
      have taken : ('/' :: '*' :: (body ++ '*' :: '/' :: more)).take (body.length + 2 + 2) =
          "/*".toList ++ body ++ "*/".toList := by
        simp [List.take_append]
      rw [taken]
      exact .block isBody behind
    · cases found
  · cases found

end IsTrivia

/-- Behind blank space and comments skipping stops, or fails at a comment that has no end. -/
theorem exists_trivia (c : Cursor) :
    ∃ d gap, IsTrivia d.rest gap ∧ c.Passes gap d ∧
      (skipTrivia c = ⟨.ok (), d⟩ ∨
        CommentReading.ofChars d.rest = .unterminated ∧ skipTrivia c =
          ⟨.error ⟨.unterminatedComment, d.spanTo (d.advanceBy d.size)⟩, d.advanceBy d.size⟩) := by
  have blanks (c : Cursor) : IsTrivia c.skipBlanks.rest (c.textWhile isBlank) := by
    rw [← List.append_nil (c.textWhile isBlank)]
    exact .blanks (forall_mem_takeWhile _ _) .nothing
  fun_induction skipTrivia c with
  | case1 c absent => exact ⟨_, _, blanks c, passes_skipWhile c isBlank, .inl rfl⟩
  | case2 c length found ih =>
      obtain ⟨d, gap, trivia, passes, skipped⟩ := ih
      have inside := passes_take c.skipBlanks (CommentReading.length_le found)
      refine ⟨d, c.textWhile isBlank ++ (c.skipBlanks.rest.take length ++ gap), ?_, ?_, skipped⟩
      · refine .blanks (forall_mem_takeWhile _ _) (.comment found ?_ trivia)
        rw [← passes.1, rest_advanceBy]
      · exact passes_append.mpr ⟨_, passes_skipWhile c isBlank, passes_append.mpr
          ⟨_, inside, passes⟩⟩
  | case3 c found => exact ⟨_, _, blanks c, passes_skipWhile c isBlank, .inr ⟨found, rfl⟩⟩

/-- What is skipped in front of a token is blank space and comments. -/
theorem exists_trivia_of_skipTrivia (skipped : skipTrivia c = ⟨.ok (), start⟩) :
    ∃ gap, IsTrivia start.rest gap ∧ c.Passes gap start := by
  obtain ⟨d, gap, trivia, passes, stopped | ⟨-, failed⟩⟩ := exists_trivia c
  · rw [skipped] at stopped
    cases stopped
    exact ⟨gap, trivia, passes⟩
  · rw [skipped] at failed
    cases failed

/-! ## Single tokens -/

/--
The word is all that a lexeme could take in front of `rest`: the longest spelling of a symbol that
is ahead, or a name up to a character that does not continue it.
-/
def IsLongest (word rest : List Char) : Lexeme → Prop
  | .symbol kind =>
      (∃ spelling, (spelling, kind) ∈ symbolSpellings ∧ spelling.toList = word) ∧
        ∀ entry ∈ symbolSpellings, entry.1.toList <+: word ++ rest →
          entry.1.toList.length ≤ word.length
  | .word _ name =>
      name.toList = word ∧ ∀ ch, rest.head? = some ch → isNameChar ch = false
  | .variable name =>
      '$' :: name.toList = word ∧ ∀ ch, rest.head? = some ch → isIdentifierChar ch = false
  | _ => True

/-- No spelling is longer than one that stands in front of it in the table of symbols. -/
theorem symbolSpellings_pairwise :
    symbolSpellings.Pairwise fun entry later =>
      later.1.toList.length ≤ entry.1.toList.length := by
  decide

/-- The first spelling in the table that is ahead is the longest one. -/
theorem isLongest_of_symbol
    {first : Char}
    {kind : Symbol}
    (read : LexemeReading.symbol first cs = .found (.symbol kind) length) :
    IsLongest ((first :: cs).take length) ((first :: cs).drop length) (.symbol kind) := by
  unfold LexemeReading.symbol at read
  split at read <;> cases read
  rename_i spelling entry
  obtain ⟨spelled, before, behind, table, others⟩ := List.find?_eq_some_iff_append.mp entry
  have ahead := List.isPrefixOf_iff_prefix.mp spelled
  have taken := List.prefix_iff_eq_take.mp ahead
  refine ⟨⟨spelling, List.mem_of_find?_eq_some entry, taken⟩, ?_⟩
  rw [List.take_append_drop, ← taken]
  intro other member starts
  have sorted := symbolSpellings_pairwise
  rw [table] at member sorted
  rcases List.mem_append.mp member with earlier | later
  · have excluded := others other earlier
    rw [List.isPrefixOf_iff_prefix.mpr starts] at excluded
    cases excluded
  · rcases List.mem_cons.mp later with rfl | later
    · exact Nat.le_refl _
    · exact List.rel_of_pairwise_cons (List.pairwise_append.mp sorted).2.1 later

/-- A lexeme takes all that it could. -/
theorem isLongest_of_read
    (read : LexemeReading.ofChars cs = .found lexeme length)
    (more : lexeme ≠ .endOfInput) :
    IsLongest (cs.take length) (cs.drop length) lexeme := by
  obtain ⟨first, cs, rfl, starts⟩ := exists_startsLexeme read more
  cases starts with
  | number number =>
      cases lexeme with
      | int => trivial
      | float => trivial
      | _ => cases number
  | string => trivial
  | «variable» dollar named =>
      unfold LexemeReading.variableName at named
      split at named <;> cases named
      refine ⟨?_, fun ch next => ?_⟩
      · rw [String.toList_ofList, List.take_succ_cons, take_length_takeWhile, dollar]
      · rw [List.drop_succ_cons, drop_length_takeWhile] at next
        exact fails_of_head?_dropWhile next
  | word _ worded =>
      cases worded
      refine ⟨?_, fun ch next => ?_⟩
      · rw [String.toList_ofList, take_length_takeWhile]
      · rw [drop_length_takeWhile] at next
        exact fails_of_head?_dropWhile next
  | symbol symbol => exact isLongest_of_symbol symbol

/-- A lexeme is spelled by the characters that it takes. -/
theorem spells_take_of_read
    (read : LexemeReading.ofChars cs = .found lexeme length)
    (more : lexeme ≠ .endOfInput) :
    Spells (cs.take length) lexeme := by
  cases number : lexeme.isNumber with
  | true => exact spells_take_of_number read number
  | false =>
      have outcome := congrArg LexemeReading.outcome read
      obtain ⟨moves, ahead⟩ := LexemeReading.length_pos outcome more
      have fits := LexemeReading.length_ofChars_le cs
      rw [read] at moves fits
      have taken : (cs.take length).length = length := List.length_take_of_le fits
      have nonempty : cs.take length ≠ [] := List.length_pos_iff.mp (by rw [taken]; exact moves)
      rw [← List.take_append_drop length cs] at read
      refine ⟨nonempty, ?_⟩
      rw [taken]
      refine LexemeReading.ofChars_of_append nonempty (fun isNumber => ?_) read
        (Nat.le_of_eq taken.symm)
      rw [number] at isNumber
      cases isNumber

/-! ## All tokens -/

theorem tokensFrom_of_read (read : readToken c = ⟨.ok token, d⟩) :
    tokensFrom c =
      if token.lexeme = .endOfInput then .ok [token] else (tokensFrom d).map (token :: ·) := by
  rw [tokensFrom]
  split
  · rename_i failed
    rw [read] at failed
    cases failed
  · rename_i found
    rw [read] at found
    cases found
    rw [read]
    exact dite_eq_ite

/-- The tokens are those of the next token and of what is behind it. -/
theorem tokensFrom_of_more
    (read : readToken c = ⟨.ok token, d⟩)
    (more : token.lexeme ≠ .endOfInput) :
    tokensFrom c = (tokensFrom d).map (token :: ·) := by
  rw [tokensFrom_of_read read, if_neg more]

/-- At the end of a text there is one token, the end. -/
theorem tokensFrom_of_ended
    (read : readToken c = ⟨.ok token, d⟩)
    (ended : token.lexeme = .endOfInput) :
    tokensFrom c = .ok [token] := by
  rw [tokensFrom_of_read read, if_pos ended]

/-- A word alone makes one token and the end. -/
theorem exists_tokenize_of_spells (spells : Spells word lexeme) (more : lexeme ≠ .endOfInput) :
    ∃ span stop, tokenize (String.ofList word) = .ok [⟨lexeme, span⟩, ⟨.endOfInput, stop⟩] := by
  have ahead : (Cursor.ofText (String.ofList word)).rest = word ++ [] := by
    rw [List.append_nil]
    exact String.toList_ofList
  have passes := passes_advanceBy ahead
  have ended := rest_advanceBy_length ahead
  obtain ⟨span, read⟩ := spells.nextLexeme (stands_of_passes passes)
    (by rw [ended]; exact separated_nil)
  obtain ⟨stop, read'⟩ := nextLexeme_endOfInput ended
  refine ⟨span, stop, ?_⟩
  rw [tokenize, tokensFrom_of_more read more, tokensFrom_of_ended read' rfl]
  rfl

/--
From a cursor on the tokens stand one behind the other, with trivia between them, in front of them
and behind them, up to the end of the text.  Each takes some text, all that it could, and its
lexeme is spelled by that text alone.
-/
inductive Tiles : Cursor → List Token → Prop
  | ended {c last : Cursor} {gap : List Char} :
      IsTrivia [] gap →
      c.Passes gap last →
      last.rest = [] →
      Tiles c [⟨.endOfInput, .point last.position⟩]
  | token {c start stop : Cursor} {gap word : List Char} {lexeme : Lexeme} {tokens : List Token} :
      IsTrivia start.rest gap →
      c.Passes gap start →
      start.Passes word stop →
      lexeme ≠ .endOfInput →
      IsLongest word stop.rest lexeme →
      Spells word lexeme →
      Tiles stop tokens →
      Tiles c (⟨lexeme, start.spanTo stop⟩ :: tokens)

/-- The tokens that are read tile the text. -/
theorem tiles_of_tokensFrom (read : tokensFrom c = .ok tokens) : Tiles c tokens := by
  fun_induction tokensFrom c generalizing tokens with
  | case1 => cases read
  | case2 c token found ended =>
      cases read
      obtain ⟨lexeme, span⟩ := token
      obtain rfl : lexeme = .endOfInput := ended
      obtain ⟨last, length, skipped, lexed, stop, rfl⟩ :=
        readToken_eq_ok_iff.mp (congrArg (LexicalReading.mk · (readToken c).stop) found)
      obtain ⟨gap, trivia, passes⟩ := exists_trivia_of_skipTrivia skipped
      cases rest : last.rest with
      | nil =>
          rw [rest] at trivia
          rw [stop, advanceBy_of_rest_eq_nil rest, spanTo, Span.between_self]
          exact .ended trivia passes rest
      | cons first more =>
          rw [rest] at lexed
          cases startsLexeme_of_startingWith lexed with
          | number isNumber => cases isNumber
  | case3 c token found more ih =>
      cases behind : tokensFrom (readToken c).stop with
      | error fault =>
          rw [behind] at read
          cases read
      | ok rest => ?_
      rw [behind] at read
      cases read
      obtain ⟨lexeme, span⟩ := token
      obtain ⟨start, length, skipped, lexed, stop, rfl⟩ :=
        readToken_eq_ok_iff.mp (congrArg (LexicalReading.mk · (readToken c).stop) found)
      obtain ⟨gap, trivia, passes⟩ := exists_trivia_of_skipTrivia skipped
      have fits := LexemeReading.length_ofChars_le start.rest
      rw [lexed] at fits
      have onward := ih behind
      rw [stop] at onward ⊢
      refine .token trivia passes (passes_take start fits) more ?_ (spells_take_of_read lexed more)
        onward
      rw [rest_advanceBy]
      exact isLongest_of_read lexed more

namespace Tiles

/-- No token starts in front of the tiled text. -/
theorem offset_le (tiles : Tiles c tokens) :
    ∀ token ∈ tokens, c.position.offset ≤ token.span.start := by
  induction tiles with
  | ended _ passes _ =>
      intro token member
      rw [List.mem_singleton.mp member]
      exact offset_le_of_le passes.le
  | token _ before inside _ _ _ _ ih =>
      intro token member
      rcases List.mem_cons.mp member with rfl | behind
      · exact offset_le_of_le before.le
      · exact Nat.le_trans (offset_le_of_le (Cursor.le_trans before.le inside.le))
          (ih token behind)

/-- The spans of the tokens are in order, and no two of them overlap. -/
theorem inOrder (tiles : Tiles c tokens) :
    tokens.Pairwise fun token later => token.span.stop ≤ later.span.start := by
  induction tiles with
  | ended => exact List.pairwise_singleton _ _
  | token _ _ _ _ _ _ behind ih => exact List.Pairwise.cons behind.offset_le ih

/-- Only the last token is the end, which is empty; all others take some text. -/
theorem exists_front (tiles : Tiles c tokens) (place : Cursor.ofText text ≤ c) :
    ∃ front last, tokens = front ++ [⟨.endOfInput, .point last⟩] ∧
      last.offset = text.utf8ByteSize ∧
      ∀ token ∈ front, token.lexeme ≠ .endOfInput ∧ token.span.start < token.span.stop := by
  induction tiles with
  | @ended _ last _ _ passes ended =>
      exact ⟨[], last.position, rfl,
        offset_eq_utf8ByteSize (Cursor.le_trans place passes.le) ended, by simp⟩
  | @token c start stop _ word lexeme tokens _ before inside more _ spells _ ih =>
      obtain ⟨front, last, rfl, whole, others⟩ :=
        ih (Cursor.le_trans place (Cursor.le_trans before.le inside.le))
      refine ⟨⟨lexeme, start.spanTo stop⟩ :: front, last, rfl, whole, ?_⟩
      intro token member
      rcases List.mem_cons.mp member with rfl | behind
      · exact ⟨more, offset_lt_of_lt (inside.lt spells.nonempty)⟩
      · exact others token behind

/-- The slice of a token spells its lexeme. -/
theorem spells_slice (tiles : Tiles c tokens) (place : Cursor.ofText text ≤ c) :
    ∀ token ∈ tokens, token.lexeme ≠ .endOfInput →
      Spells (token.span.slice text).toList token.lexeme := by
  induction tiles with
  | ended =>
      intro token member more
      rw [List.mem_singleton.mp member] at more
      exact absurd rfl more
  | @token c start stop _ word lexeme tokens _ before inside _ _ spells _ ih =>
      have reached := Cursor.le_trans place before.le
      intro token member more
      rcases List.mem_cons.mp member with rfl | behind
      · rw [slice_spanTo reached inside.le, String.toList_ofList, textTo_eq_of_rest inside.1]
        exact spells
      · exact ih (Cursor.le_trans reached inside.le) token behind more

end Tiles

/-- What the tokens of a text are to it. -/
structure Tokenizes (text : String) (tokens : List Token) : Prop where
  /-- The last token is the end of the text, and all others take some of it. -/
  ends : ∃ front last, tokens = front ++ [⟨.endOfInput, .point last⟩] ∧
    last.offset = text.utf8ByteSize ∧
    ∀ token ∈ front, token.lexeme ≠ .endOfInput ∧ token.span.start < token.span.stop
  /-- The tokens stand in order and do not overlap. -/
  inOrder : tokens.Pairwise fun token later => token.span.stop ≤ later.span.start
  /-- Between the tokens there are only trivia, and no token could be longer. -/
  tiles : Tiles (.ofText text) tokens
  /-- The slice of a token, alone, makes the same token and the end. -/
  alone : ∀ token ∈ tokens, token.lexeme ≠ .endOfInput →
    ∃ span stop, tokenize (token.span.slice text) =
      .ok [⟨token.lexeme, span⟩, ⟨.endOfInput, stop⟩]

/-- A text that is read as tokens is tiled by them. -/
theorem tokenizes_of_tokenize (read : tokenize text = .ok tokens) : Tokenizes text tokens := by
  have tiles : Tiles (.ofText text) tokens := tiles_of_tokensFrom read
  have place : Cursor.ofText text ≤ .ofText text := Cursor.le_refl _
  refine ⟨tiles.exists_front place, tiles.inOrder, tiles, ?_⟩
  intro token member more
  have alone := exists_tokenize_of_spells (tiles.spells_slice place token member more) more
  rwa [String.ofList_toList] at alone

/--
A symbol of three characters is not taken apart, a character behind a name ends it, and behind the
last symbol a comment goes on to the end of the text.
-/
theorem tokenizes_of_tokenize_symbols :
    ∃ tokens, tokenize "$a?->b<> # c" = .ok tokens ∧
      tokens.map Token.lexeme =
        [.variable "a", .symbol .nullsafeArrow, .word .identifier "b", .symbol .notEqual,
          .endOfInput] ∧
      Tokenizes "$a?->b<> # c" tokens := by
  let place (n : Nat) : Cursor := (ofText "$a?->b<> # c").advanceBy n
  have dollar : readToken (place 0) = ⟨.ok ⟨.variable "a", ⟨0, 2, 1, 1, 1⟩⟩, place 2⟩ :=
    readToken_eq_ok_iff.mpr ⟨place 0, 2, skipTrivia_eq_skipBlanks rfl, rfl, rfl, rfl⟩
  have arrow : readToken (place 2) = ⟨.ok ⟨.symbol .nullsafeArrow, ⟨2, 5, 1, 3, 1⟩⟩, place 5⟩ :=
    readToken_eq_ok_iff.mpr ⟨place 2, 3, skipTrivia_eq_skipBlanks rfl, rfl, rfl, rfl⟩
  have name : readToken (place 5) = ⟨.ok ⟨.word .identifier "b", ⟨5, 6, 1, 6, 1⟩⟩, place 6⟩ :=
    readToken_eq_ok_iff.mpr ⟨place 5, 1, skipTrivia_eq_skipBlanks rfl, rfl, rfl, rfl⟩
  have unequal : readToken (place 6) = ⟨.ok ⟨.symbol .notEqual, ⟨6, 8, 1, 7, 1⟩⟩, place 8⟩ :=
    readToken_eq_ok_iff.mpr ⟨place 6, 2, skipTrivia_eq_skipBlanks rfl, rfl, rfl, rfl⟩
  have comment : skipTrivia (place 8) = ⟨.ok (), place 12⟩ :=
    (@skipTrivia_comment (place 8) 3 rfl).trans (@skipTrivia_eq_skipBlanks (place 12) rfl)
  have ended : readToken (place 8) = ⟨.ok ⟨.endOfInput, ⟨12, 12, 1, 13, 1⟩⟩, place 12⟩ :=
    readToken_eq_ok_iff.mpr ⟨place 12, 0, comment, rfl, rfl, rfl⟩
  have read := tokensFrom_of_more dollar (by decide)
  rw [tokensFrom_of_more arrow (by decide), tokensFrom_of_more name (by decide),
    tokensFrom_of_more unequal (by decide), tokensFrom_of_ended ended rfl] at read
  exact ⟨_, read, rfl, tokenizes_of_tokenize read⟩

end EmbeddedMarkup
