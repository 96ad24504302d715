import EmbeddedMarkup.Text.Position

/-!
# Outlines

An outline shows a tree in lines.  A block is a title with labelled entries in parentheses, one
to a line, and what stands inside a block is indented by four spaces.  Nodes are blocks of
their fields, and lists are blocks of numbered entries.
-/

namespace EmbeddedMarkup

/-- The outline of a tree. -/
inductive Outline where
  /-- A text; its further lines are indented like its first. -/
  | text (value : String)
  /-- A title and labelled entries. -/
  | block (title : String) (entries : List (String × Outline))

namespace Outline

/-- The start of a line at a level of indentation. -/
def lineStart (level : Nat) : String :=
  "\n" ++ String.ofList (List.replicate (4 * level) ' ')

/-- A text whose further lines start at a level of indentation. -/
def indent (level : Nat) (value : String) : String :=
  String.ofList
    (value.toList.flatMap fun c => if c = '\n' then (lineStart level).toList else [c])

mutual

/-- Write an outline behind what is written already. -/
def writeAfter (written : String) (level : Nat) : Outline → String
  | .text value => written ++ indent level value
  | .block title entries =>
      writeEntriesAfter (written ++ title ++ "(") (level + 1) entries ++ lineStart level ++ ")"

/-- Write the entries of a block behind what is written already. -/
def writeEntriesAfter (written : String) (level : Nat) : List (String × Outline) → String
  | [] => written
  | (label, entry) :: entries =>
      writeEntriesAfter (writeAfter (written ++ lineStart level ++ label ++ ": ") level entry) level
        entries

end

/-- The text of an outline. -/
def render (outline : Outline) : String :=
  outline.writeAfter "" 0

/-- A node, with the lines it spans if `positions` are asked for. -/
def node (positions : Bool) (kind : String) (span : Span) (fields : List (String × Outline)) :
    Outline :=
  let lines :=
    if positions then "[" ++ toString span.line ++ " - " ++ toString span.endLine ++ "]" else ""
  .block (kind ++ lines) fields

/-- A list, whose entries are numbered from zero. -/
def list (entries : List Outline) : Outline :=
  .block "array" (entries.mapIdx fun index entry => (toString index, entry))

/-- A value that may be absent. -/
def optional (value : Option Outline) : Outline :=
  value.getD (.text "null")

/-- A truth value. -/
def flag (value : Bool) : Outline :=
  .text (if value then "true" else "false")

end Outline
end EmbeddedMarkup
