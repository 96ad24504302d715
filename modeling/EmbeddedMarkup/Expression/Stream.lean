import EmbeddedMarkup.Expression.Lexer

/-!
# Token streams

A token stream stands behind the last token that was taken from it.  It may remember the next
token, so that looking at it again costs nothing.  What it remembers is what reading at its
cursor gives, so remembering is never seen from outside.

Looking at the next token yields a view: the token, the stream as it is after the look, and the
stream behind the token.
-/

namespace EmbeddedMarkup

/-- The token that is read at a cursor, and the cursor behind it. -/
structure Lookahead (start : Cursor) where
  token : Token
  stop : Cursor
  /-- Reading at the cursor gives this token and this cursor. -/
  read_eq : readToken start = ⟨.ok token, stop⟩

/-- A place between two tokens. -/
structure TokenStream where
  /-- The place behind the last token taken. -/
  cursor : Cursor
  /-- The next token, if it is remembered. -/
  remembered : Option (Lookahead cursor)
  /-- Tokens that were looked at are remembered. -/
  remembers : Bool

namespace TokenStream

/-- The stream at a cursor, with nothing remembered. -/
def fresh (remembers : Bool) (cursor : Cursor) : TokenStream :=
  ⟨cursor, none, remembers⟩

/-- The stream at another cursor, with nothing remembered. -/
def moveTo (stream : TokenStream) (cursor : Cursor) : TokenStream :=
  fresh stream.remembers cursor

/-- The stream at the same cursor, with nothing remembered. -/
def forget (stream : TokenStream) : TokenStream :=
  stream.moveTo stream.cursor

/-- Read the token at a cursor. -/
def lookahead (start : Cursor) : Except LexicalFault (Lookahead start) :=
  match read_eq : readToken start with
  | ⟨.ok token, stop⟩ => .ok ⟨token, stop, read_eq⟩
  | ⟨.error fault, _⟩ => .error fault

/-- What looking at the next token of a stream shows. -/
structure View (stream : TokenStream) where
  /-- The next token. -/
  token : Token
  /-- The stream after the look, at the same cursor. -/
  here : TokenStream
  /-- The stream behind the token. -/
  behind : TokenStream
  /-- The look leaves the cursor where it is. -/
  here_cursor : here.cursor = stream.cursor
  /-- Taking the token moves on. -/
  le_behind : stream.cursor ≤ behind.cursor
  /-- Taking a token that is not the end of the input moves over it. -/
  lt_behind : token.lexeme ≠ .endOfInput → stream.cursor < behind.cursor

/-- The view of a stream whose next token is known. -/
def viewOf (stream : TokenStream) (next : Lookahead stream.cursor) : View stream where
  token := next.token
  here := if stream.remembers then { stream with remembered := some next } else stream
  behind := stream.moveTo next.stop
  here_cursor := by split <;> rfl
  le_behind := by
    have reached := le_readToken stream.cursor
    rwa [next.read_eq] at reached
  lt_behind := fun more => by
    have passed := @lt_readToken stream.cursor next.token
      (by rw [next.read_eq]) more
    rwa [next.read_eq] at passed

/-- Look at the next token, which is read unless it is remembered. -/
def look (stream : TokenStream) : Except LexicalFault (View stream) :=
  match stream.remembered with
  | some next => .ok (stream.viewOf next)
  | none => (lookahead stream.cursor).map stream.viewOf

/-- The start of the next token, behind any trivia. -/
def nextStart (stream : TokenStream) : Except LexicalFault Cursor :=
  match skipTrivia stream.cursor with
  | ⟨.ok (), start⟩ => .ok start
  | ⟨.error fault, _⟩ => .error fault

/-- The next token starts at or behind the cursor. -/
theorem le_of_nextStart
    {stream : TokenStream}
    {start : Cursor}
    (found : stream.nextStart = .ok start) :
    stream.cursor ≤ start := by
  have reached := le_skipTrivia stream.cursor
  unfold nextStart at found
  split at found <;> rename_i trivia
  · cases found
    rwa [trivia] at reached
  · contradiction

end TokenStream
end EmbeddedMarkup
