import EmbeddedMarkup.Expression.StringLiteral

/-!
# Strings in quotes

A string is written in quotes with a backslash in front of each backslash and of each quote of its
sort.  In double quotes a control character or a dollar sign may also be written as a backslash and
a letter, at some places and not at others.  However it is written, it is read back.

A backslash that escapes nothing stands for itself, so the meaning of a character hangs on the
backslashes in front of it.  The writing and the reading are kept in step by one statement for each
character: what is written for it is read as this character, and reading goes on behind it.
-/

namespace EmbeddedMarkup

/-- How a string is put in quotes. -/
inductive StringStyle where
  /-- In single quotes. -/
  | single
  /--
  In double quotes.  The characters of the string at these places are written as a backslash and a
  letter, if there is a letter for them.
  -/
  | double (lettered : Nat → Bool)

/-- A text with a backslash in front of each backslash and of each quote. -/
def escapeQuotes (quote : Char) (value : List Char) : List Char :=
  value.flatMap fun ch => if ch = '\\' ∨ ch = quote then ['\\', ch] else [ch]

/-- The letter that stands for a character behind a backslash, between double quotes. -/
def escapeLetter? : Char → Option Char
  | '\n' => some 'n'
  | '\t' => some 't'
  | '\r' => some 'r'
  | '\x0b' => some 'v'
  | '\x1b' => some 'e'
  | '\x0c' => some 'f'
  | '\x00' => some '0'
  | '$' => some '$'
  | _ => none

namespace StringStyle

/-- The quote in front of a string and behind it. -/
def quote : StringStyle → Char
  | single => '\''
  | double _ => '"'

/-- The letter that a character at a place is written as, if it is written as one. -/
def letterAt : StringStyle → Nat → Char → Option Char
  | single, _, _ => none
  | double lettered, place, ch => if lettered place then escapeLetter? ch else none

/-- How the character at a place is written. -/
def spell (style : StringStyle) (place : Nat) (ch : Char) : List Char :=
  if ch = '\\' ∨ ch = style.quote then ['\\', ch]
  else
    match style.letterAt place ch with
    | some letter => ['\\', letter]
    | none => [ch]

/-- What is written between the quotes. -/
def body (style : StringStyle) (value : List Char) : List Char :=
  (value.mapIdx style.spell).flatten

/-- A string in its quotes. -/
def write (style : StringStyle) (value : List Char) : List Char :=
  style.quote :: (style.body value ++ [style.quote])

end StringStyle

variable {quote ch : Char} {rest value : List Char} {style : StringStyle} {place : Nat}

/-! ## Reading what is between quotes -/

theorem readString?_quote : readString? quote (quote :: rest) = some ⟨[], 1⟩ := by
  rw [readString?.eq_def]
  simp only [if_true]

theorem readString?_cons (unquoted : ch ≠ quote) (plain : ch ≠ '\\') :
    readString? quote (ch :: rest) = (readString? quote rest).map (.cons ch 1) := by
  rw [readString?.eq_def]
  simp only [unquoted, plain, if_false]

theorem readString?_escape
    {meaning : Char}
    (unquoted : '\\' ≠ quote)
    (escapes : escape? quote ch = some meaning) :
    readString? quote ('\\' :: ch :: rest) = (readString? quote rest).map (.cons meaning 2) := by
  rw [readString?.eq_def]
  simp only [unquoted, if_false, if_true, escapes]

theorem readString?_backslash
    (unquoted : '\\' ≠ quote)
    (plain : ∀ ch, rest.head? = some ch → escape? quote ch = none) :
    readString? quote ('\\' :: rest) = (readString? quote rest).map (.cons '\\' 1) := by
  rw [readString?.eq_def]
  cases rest with
  | nil => simp [unquoted, readString?]
  | cons ch rest => simp [unquoted, plain ch rfl]

/-! ## One character -/

/-- The text is read as the character, and reading goes on behind it. -/
def StandsFor (quote : Char) (text : List Char) (ch : Char) : Prop :=
  ∀ rest, readString? quote (text ++ rest) = (readString? quote rest).map (.cons ch text.length)

theorem StringStyle.backslash_ne_quote (style : StringStyle) : '\\' ≠ style.quote := by
  cases style with
  | single => exact (by decide : '\\' ≠ '\'')
  | double _ => exact (by decide : '\\' ≠ '"')

/-- A letter that stands for a character is read as that character. -/
theorem escape?_of_escapeLetter? {letter : Char} (written : escapeLetter? ch = some letter) :
    escape? '"' letter = some ch := by
  unfold escapeLetter? at written
  split at written <;> cases written <;> rfl

/-- Only double quotes have letters for characters. -/
theorem StringStyle.escape?_of_letterAt {letter : Char}
    (written : style.letterAt place ch = some letter) :
    escape? style.quote letter = some ch := by
  cases style with
  | single => cases written
  | double lettered =>
      rw [letterAt] at written
      split at written
      · exact escape?_of_escapeLetter? written
      · cases written

/-- What is written for a character stands for it. -/
theorem StringStyle.standsFor_spell (style : StringStyle) (place : Nat) (ch : Char) :
    StandsFor style.quote (style.spell place ch) ch := by
  intro rest
  rw [spell]
  split
  · rename_i special
    exact readString?_escape style.backslash_ne_quote (if_pos special)
  · rename_i plain
    rw [not_or] at plain
    cases written : style.letterAt place ch with
    | none => exact readString?_cons plain.2 plain.1
    | some letter =>
        exact readString?_escape style.backslash_ne_quote (escape?_of_letterAt written)

/-! ## Strings -/

/-- Characters that are written one behind the other are read one behind the other. -/
theorem readString?_flatten_mapIdx
    {spell : Nat → Char → List Char}
    (stands : ∀ place ch, StandsFor quote (spell place ch) ch)
    (value : List Char) :
    readString? quote ((value.mapIdx spell).flatten ++ quote :: rest) =
      some ⟨value, (value.mapIdx spell).flatten.length + 1⟩ := by
  induction value generalizing spell with
  | nil => exact readString?_quote
  | cons ch value ih =>
      rw [List.mapIdx_cons, List.flatten_cons, List.append_assoc, stands 0 ch,
        ih fun place => stands (place + 1), Option.map_some, StringReading.cons,
        List.length_append, Nat.add_assoc]

/-- What is written between quotes is read back, whatever is behind the closing quote. -/
theorem StringStyle.readString?_body (style : StringStyle) (value rest : List Char) :
    readString? style.quote (style.body value ++ style.quote :: rest) =
      some ⟨value, (style.body value).length + 1⟩ :=
  readString?_flatten_mapIdx style.standsFor_spell value

/-- Without letters nothing but backslashes and quotes is written in another way. -/
theorem StringStyle.body_eq_escapeQuotes (plain : ∀ place ch, style.letterAt place ch = none) :
    style.body value = escapeQuotes style.quote value := by
  have spelled (place : Nat) (ch : Char) :
      style.spell place ch = if ch = '\\' ∨ ch = style.quote then ['\\', ch] else [ch] := by
    rw [spell, plain place ch]
  rw [body, funext fun place => funext (spelled place), escapeQuotes, List.flatMap]
  congr 1
  induction value with
  | nil => rfl
  | cons ch value ih => rw [List.mapIdx_cons, ih, List.map_cons]

end EmbeddedMarkup
