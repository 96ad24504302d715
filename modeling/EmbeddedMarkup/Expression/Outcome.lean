import EmbeddedMarkup.Expression.Stream
import EmbeddedMarkup.Expression.Syntax
import EmbeddedMarkup.Markup.Outcome

/-!
# Outcomes of reading tokens

A reader of host expressions takes a stack of modes and a token stream.  Unlike a reader of
markup it leaves the stream where it was when it fails, from where reading can be taken up again.
The small readers here take single tokens.
-/

namespace EmbeddedMarkup

/-- The outcome of a reader of host expressions. -/
inductive StreamOutcome (Reached : Cursor → Prop) (α : Type) where
  /-- A value was read, and the stream stands behind it. -/
  | success
      (value : α)
      (modes : ModeStack)
      (stream : TokenStream)
      (reached : Reached stream.cursor)
  /-- Reading failed where the stream stands. -/
  | failure (fault : Fault) (modes : ModeStack) (stream : TokenStream)

namespace StreamOutcome

variable {α β : Type} {P Q : Cursor → Prop}

/-- Go on behind a success. -/
def andThen
    (outcome : StreamOutcome P α)
    (next : α → ModeStack → (stream : TokenStream) → P stream.cursor → StreamOutcome Q β) :
    StreamOutcome Q β :=
  match outcome with
  | .success value modes stream reached => next value modes stream reached
  | .failure fault modes stream => .failure fault modes stream

/-- Change the value of a success. -/
def map (f : α → β) (outcome : StreamOutcome P α) : StreamOutcome P β :=
  outcome.andThen fun value modes stream reached => .success (f value) modes stream reached

/-- Forget some of what is known about the cursor. -/
def weaken (outcome : StreamOutcome P α) (weaker : ∀ stop, P stop → Q stop) :
    StreamOutcome Q α :=
  outcome.andThen fun value modes stream reached =>
    .success value modes stream (weaker stream.cursor reached)

/-- Change the modes, whatever the outcome is. -/
def mapModes (f : ModeStack → ModeStack) (outcome : StreamOutcome P α) : StreamOutcome P α :=
  match outcome with
  | .success value modes stream reached => .success value (f modes) stream reached
  | .failure fault modes stream => .failure fault (f modes) stream

/-- The outcome for markup, which has no use for the stream. -/
def toOutcome (outcome : StreamOutcome P α) : Outcome P α :=
  match outcome with
  | .success value modes stream reached => .success value modes stream.cursor reached
  | .failure fault modes _ => .failure fault modes

end StreamOutcome

namespace TokenStream

variable {β : Type} {Q : Cursor → Prop}

/-- Go on with the view of the next token. -/
def onLook
    (stream : TokenStream)
    (modes : ModeStack)
    (next : stream.View → StreamOutcome Q β) :
    StreamOutcome Q β :=
  match stream.look with
  | .ok view => next view
  | .error fault => .failure (Fault.ofLexical fault) modes stream

/-- Go on with the start of the next token. -/
def onNextStart
    (stream : TokenStream)
    (modes : ModeStack)
    (next : (start : Cursor) → stream.cursor ≤ start → StreamOutcome Q β) :
    StreamOutcome Q β :=
  match found : stream.nextStart with
  | .ok start => next start (le_of_nextStart found)
  | .error fault => .failure (Fault.ofLexical fault) modes stream

/-- Taking a symbol moves over it. -/
theorem View.lt_behind_of_symbol
    {stream : TokenStream}
    {kind : Symbol}
    (view : stream.View)
    (found : view.token.lexeme = .symbol kind) :
    stream.cursor < view.behind.cursor :=
  view.lt_behind (by simp [found])

/-- Taking a word moves over it. -/
theorem View.lt_behind_of_word
    {stream : TokenStream}
    {kind : WordKind}
    {text : String}
    (view : stream.View)
    (found : view.token.lexeme = .word kind text) :
    stream.cursor < view.behind.cursor :=
  view.lt_behind (by simp [found])

/-- Take a symbol, which has to be next. -/
def expect (stream : TokenStream) (kind : Symbol) (modes : ModeStack) :
    StreamOutcome (stream.cursor < ·) Unit :=
  stream.onLook modes fun view =>
    if found : view.token.lexeme = .symbol kind then
      .success () modes view.behind (view.lt_behind_of_symbol found)
    else
      .failure (.grammar (.expected view.token.lexeme (.symbol kind)) view.token.span) modes
        view.here

/-- Take a symbol if it is next, and tell whether it was. -/
def eat (stream : TokenStream) (kind : Symbol) (modes : ModeStack) :
    StreamOutcome (stream.cursor ≤ ·) Bool :=
  stream.onLook modes fun view =>
    if view.token.lexeme = .symbol kind then .success true modes view.behind view.le_behind
    else .success false modes view.here (view.here_cursor ▸ Cursor.le_refl _)

/-- Take an identifier if one is next. -/
def eatIdentifier (stream : TokenStream) (modes : ModeStack) :
    StreamOutcome (stream.cursor ≤ ·) Unit :=
  stream.onLook modes fun view =>
    match view.token.lexeme with
    | .word .identifier _ => .success () modes view.behind view.le_behind
    | _ => .success () modes view.here (view.here_cursor ▸ Cursor.le_refl _)

/-- Take a variable, which has to be next. -/
def expectVariable (stream : TokenStream) (modes : ModeStack) :
    StreamOutcome (stream.cursor < ·) Parameter :=
  stream.onLook modes fun view =>
    match found : view.token.lexeme with
    | .variable name =>
        .success ⟨name, view.token.span⟩ modes view.behind (view.lt_behind (by simp [found]))
    | lexeme =>
        .failure (.grammar (.expected lexeme .variable) view.token.span) modes view.here

/--
Take the name of a member, which has to be next.  Keywords are names of members too.  A token
that is no name is taken all the same.
-/
def expectMemberName (stream : TokenStream) (modes : ModeStack) :
    StreamOutcome (stream.cursor < ·) String :=
  stream.onLook modes fun view =>
    match found : view.token.lexeme with
    | .word _ text => .success text modes view.behind (view.lt_behind_of_word found)
    | lexeme =>
        .failure (.grammar (.expected lexeme .identifier) view.token.span) modes view.behind

/--
Take the parameters of an arrow function and the parenthesis that ends them.  A parameter may
have a type in front, which may have a question mark; neither is kept.
-/
def readParameters (stream : TokenStream) (modes : ModeStack) :
    StreamOutcome (stream.cursor < ·) (List Parameter) :=
  stream.onLook modes fun view =>
    if found : view.token.lexeme = .symbol .rightParen then
      .success [] modes view.behind (view.lt_behind_of_symbol found)
    else
      (view.here.eat .question modes).andThen fun _ modes typed reached =>
        (typed.eatIdentifier modes).andThen fun _ modes named reached' =>
          (named.expectVariable modes).andThen fun parameter modes listed passed =>
            have passed : stream.cursor < listed.cursor :=
              view.here_cursor ▸
                Cursor.lt_of_le_of_lt reached (Cursor.lt_of_le_of_lt reached' passed)
            (listed.eat .comma modes).andThen fun more modes next reached =>
              have passed : stream.cursor < next.cursor := Cursor.lt_of_lt_of_le passed reached
              if more then
                ((next.readParameters modes).map (parameter :: ·)).weaken
                  fun _ => Cursor.lt_trans passed
              else
                ((next.expect .rightParen modes).map fun _ => [parameter]).weaken
                  fun _ => Cursor.lt_trans passed
termination_by stream.cursor.size
decreasing_by exact Cursor.size_lt_of_lt passed

end TokenStream
end EmbeddedMarkup
