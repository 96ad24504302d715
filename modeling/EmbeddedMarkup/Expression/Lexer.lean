import EmbeddedMarkup.Expression.Lexeme
import EmbeddedMarkup.Text.Comment
import EmbeddedMarkup.Text.Cursor

/-!
# Reading tokens

Blank space and comments may stand in front of every token.  Reading a token skips them and
takes the lexeme that follows.  A failed reading leaves the cursor behind the text it failed on,
from where reading can go on.

The main facts are that reading never moves a cursor back, and that every token but the end of
the input moves it on.
-/

namespace EmbeddedMarkup

/-- The comment that the characters ahead start with. -/
inductive CommentReading where
  /-- There is none. -/
  | absent
  /-- There is one of this length. -/
  | comment (length : Nat)
  /-- There is a block comment without end. -/
  | unterminated

namespace CommentReading

/--
A line comment ends in front of a line end, a block comment behind its `*/`.  A `#` in front of
a bracket opens no comment.
-/
def ofChars : List Char → CommentReading
  | '#' :: '[' :: _ => .absent
  | '#' :: rest => .comment ((rest.takeWhile fun c => !isLineEnd c).length + 1)
  | '/' :: '/' :: rest => .comment ((rest.takeWhile fun c => !isLineEnd c).length + 2)
  | '/' :: '*' :: rest =>
      match blockCommentTail? rest with
      | some length => .comment (length + 2)
      | none => .unterminated
  | _ => .absent

/-- A comment takes at least one character, and there is one. -/
theorem length_pos
    {cs : List Char}
    {length : Nat}
    (found : ofChars cs = .comment length) :
    0 < length ∧ cs ≠ [] := by
  unfold ofChars at found
  split at found
  · contradiction
  · cases found
    simp
  · cases found
    simp
  · split at found
    · cases found
      simp
    · contradiction
  · contradiction

end CommentReading

/-- The outcome of a reading and the cursor it leaves. -/
structure LexicalReading (α : Type) where
  outcome : Except LexicalFault α
  stop : Cursor

/-- Skip blank space and comments. -/
def skipTrivia (c : Cursor) : LexicalReading Unit :=
  match _found : CommentReading.ofChars c.skipBlanks.rest with
  | .absent => ⟨.ok (), c.skipBlanks⟩
  | .comment length => skipTrivia (c.skipBlanks.advanceBy length)
  | .unterminated =>
      let stop := c.skipBlanks.advanceBy c.skipBlanks.size
      ⟨.error ⟨.unterminatedComment, c.skipBlanks.spanTo stop⟩, stop⟩
termination_by c.size
decreasing_by
  have moves := CommentReading.length_pos _found
  have moved := Cursor.size_lt_of_lt (Cursor.lt_advanceBy moves.1 moves.2)
  have skipped := Cursor.size_le_of_le c.le_skipBlanks
  omega

/-- Read the token that starts at a cursor. -/
def tokenAt (start : Cursor) : LexicalReading Token :=
  let reading := LexemeReading.ofChars start.rest
  let stop := start.advanceBy reading.length
  { outcome :=
      match reading.outcome with
      | .ok lexeme => .ok ⟨lexeme, start.spanTo stop⟩
      | .error cause => .error ⟨cause, start.spanTo stop⟩
    stop := stop }

/-- Read the next token, behind any trivia. -/
def readToken (c : Cursor) : LexicalReading Token :=
  match skipTrivia c with
  | ⟨.error fault, stop⟩ => ⟨.error fault, stop⟩
  | ⟨.ok (), start⟩ => tokenAt start

/-- Skipping trivia moves a cursor on. -/
theorem le_skipTrivia (c : Cursor) : c ≤ (skipTrivia c).stop := by
  fun_induction skipTrivia c with
  | case1 c _ => exact c.le_skipBlanks
  | case2 c length found ih =>
      exact Cursor.le_trans (Cursor.le_trans c.le_skipBlanks (Cursor.le_advanceBy _ _)) ih
  | case3 c _ stop => exact Cursor.le_trans c.le_skipBlanks (Cursor.le_advanceBy _ _)

/-- Reading a token other than the end of the input moves a cursor over it. -/
theorem lt_tokenAt
    {c : Cursor}
    {token : Token}
    (found : (tokenAt c).outcome = .ok token)
    (more : token.lexeme ≠ .endOfInput) :
    c < (tokenAt c).stop := by
  simp only [tokenAt] at found
  split at found
  · rename_i lexeme outcome
    cases found
    have moves := LexemeReading.length_pos outcome more
    exact Cursor.lt_advanceBy moves.1 moves.2
  · contradiction

/-- Reading a token moves a cursor on. -/
theorem le_readToken (c : Cursor) : c ≤ (readToken c).stop := by
  have skipped := le_skipTrivia c
  unfold readToken
  split <;> rename_i trivia <;> rw [trivia] at skipped
  · exact skipped
  · exact Cursor.le_trans skipped (Cursor.le_advanceBy _ _)

/-- Reading a token other than the end of the input moves a cursor over it. -/
theorem lt_readToken
    {c : Cursor}
    {token : Token}
    (found : (readToken c).outcome = .ok token)
    (more : token.lexeme ≠ .endOfInput) :
    c < (readToken c).stop := by
  have skipped := le_skipTrivia c
  unfold readToken at found ⊢
  split <;> rename_i trivia <;> rw [trivia] at skipped
  · simp [trivia] at found
  · simp only [trivia] at found
    exact Cursor.lt_of_le_of_lt skipped (lt_tokenAt found more)

/-- The tokens of a text up to its end, the last one being the end of the input. -/
def tokensFrom (c : Cursor) : Except LexicalFault (List Token) :=
  match _found : (readToken c).outcome with
  | .error fault => .error fault
  | .ok token =>
      if _more : token.lexeme = .endOfInput then .ok [token]
      else (tokensFrom (readToken c).stop).map (token :: ·)
termination_by c.size
decreasing_by exact Cursor.size_lt_of_lt (lt_readToken _found _more)

/-- The tokens of a text. -/
def tokenize (text : String) : Except LexicalFault (List Token) :=
  tokensFrom (.ofText text)

end EmbeddedMarkup
