import EmbeddedMarkup.Text.Character

/-!
# Normal form of literal text

Literal text between tags is laid out freely in a source.  Its normal form keeps the words and
writes one space between two of them.  Blank space at an end is dropped where the text touches a
tag and becomes one space where it touches a hole.
-/

namespace EmbeddedMarkup

/--
Collapse the blank runs of a text.  `started` says that a word was written already, and
`pending` that blank space was read since.
-/
def collapseBlanks
    (trimStart trimEnd started pending : Bool) :
    List Char → List Char
  | [] => if pending && !trimEnd then [' '] else []
  | c :: rest =>
      if isBlank c then collapseBlanks trimStart trimEnd started true rest
      else
        (if pending && (started || !trimStart) then [' '] else []) ++
          c :: collapseBlanks trimStart trimEnd true false rest

/-- The normal form of a raw text, or nothing when it holds no word. -/
def normalizeText (raw : List Char) (trimStart trimEnd : Bool) : Option String :=
  if raw.all isBlank then none
  else some (String.ofList (collapseBlanks trimStart trimEnd false false raw))

/-- Text without a word has no normal form. -/
theorem normalizeText_eq_none_iff {raw : List Char} {trimStart trimEnd : Bool} :
    normalizeText raw trimStart trimEnd = none ↔ raw.all isBlank = true := by
  simp [normalizeText]

end EmbeddedMarkup
