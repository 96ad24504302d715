/-!
# Positions and spans

A position counts bytes of the UTF-8 form from the start of the text, and lines and columns
from one.  Columns count characters.  A line ends at a line feed, at a carriage return, or at
the two of them in that order, which together end one line.
-/

namespace EmbeddedMarkup

/-- A place between two characters of a text. -/
structure Position where
  /-- Bytes in front of it. -/
  offset : Nat
  /-- One more than the line breaks in front of it. -/
  line : Nat
  /-- One more than the characters between the last line break and it. -/
  column : Nat
deriving DecidableEq, Repr

namespace Position

/-- The position in front of a text. -/
def origin : Position :=
  ⟨0, 1, 1⟩

/--
The position behind the character `c` that stands at `p`, where `following` is the character
after `c`.  A carriage return in front of a line feed leaves the line break to the line feed.
-/
def past (p : Position) (c : Char) (following : Option Char) : Position :=
  if c = '\n' then ⟨p.offset + c.utf8Size, p.line + 1, 1⟩
  else if c = '\r' then
    if following = some '\n' then ⟨p.offset + c.utf8Size, p.line, p.column⟩
    else ⟨p.offset + c.utf8Size, p.line + 1, 1⟩
  else ⟨p.offset + c.utf8Size, p.line, p.column + 1⟩

/-- A message about a position, as it is shown to the user. -/
def report (p : Position) (title message : String) : String :=
  title ++ " at line " ++ toString p.line ++ ", column " ++ toString p.column ++ ": " ++ message

end Position

/-- A stretch of text: its bytes, the place where it starts, and the line where it ends. -/
structure Span where
  /-- Offset of the first byte. -/
  start : Nat
  /-- Offset behind the last byte. -/
  stop : Nat
  /-- Line of the start. -/
  line : Nat
  /-- Column of the start. -/
  column : Nat
  /-- Line of the last character. -/
  endLine : Nat
deriving DecidableEq, Repr, Inhabited

namespace Span

/--
The span from `start` to `stop`.  When it ends right behind a line break, that break belongs to
the line it ends.
-/
def between (start stop : Position) : Span where
  start := start.offset
  stop := stop.offset
  line := start.line
  column := start.column
  endLine :=
    if start.offset < stop.offset ∧ stop.column = 1 then max (stop.line - 1) start.line
    else stop.line

/-- The empty span at a position. -/
def point (p : Position) : Span :=
  ⟨p.offset, p.offset, p.line, p.column, p.line⟩

/-- The smallest span that covers two spans. -/
def cover (a b : Span) : Span :=
  let (first, last) := if a.start ≤ b.start then (a, b) else (b, a)
  { start := first.start
    stop := max last.stop first.stop
    line := first.line
    column := first.column
    endLine := max last.endLine first.endLine }

/-- The position that a span starts at. -/
def position (span : Span) : Position :=
  ⟨span.start, span.line, span.column⟩

/-- Nothing is covered between a position and itself. -/
theorem between_self (p : Position) : between p p = point p := by
  simp [between, point]

end Span

/-- A cause of failure, with the position it is reported at. -/
structure Located (ρ : Type) where
  /-- What went wrong. -/
  cause : ρ
  /-- Where it went wrong. -/
  position : Position
deriving DecidableEq, Repr

/-- The same place, reported for another cause. -/
def Located.map {ρ σ : Type} (f : ρ → σ) (fault : Located ρ) : Located σ :=
  ⟨f fault.cause, fault.position⟩

end EmbeddedMarkup
