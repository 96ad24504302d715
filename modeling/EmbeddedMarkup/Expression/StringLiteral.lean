/-!
# String literals

In both kinds of string literals a backslash escapes a backslash and the quote.  In double
quotes it also introduces some control characters and the dollar sign.  Any other backslash
stands for itself.
-/

namespace EmbeddedMarkup

/-- What the letter behind a backslash stands for between double quotes. -/
def controlEscape? : Char → Option Char
  | 'n' => some '\n'
  | 't' => some '\t'
  | 'r' => some '\r'
  | 'v' => some '\x0b'
  | 'e' => some '\x1b'
  | 'f' => some '\x0c'
  | '0' => some '\x00'
  | '$' => some '$'
  | _ => none

/-- What the character behind a backslash stands for, if the two are an escape. -/
def escape? (quote c : Char) : Option Char :=
  if c = '\\' ∨ c = quote then some c
  else if quote = '"' then controlEscape? c
  else none

/-- The value of a string literal and the number of characters that spell it. -/
structure StringReading where
  value : List Char
  length : Nat

/-- Put one character, spelled with `spelled` characters, in front of a reading. -/
def StringReading.cons (c : Char) (spelled : Nat) (reading : StringReading) : StringReading :=
  ⟨c :: reading.value, spelled + reading.length⟩

/-- The rest of a string literal behind its opening quote, if the closing quote is there. -/
def readString? (quote : Char) : List Char → Option StringReading
  | [] => none
  | c :: rest =>
      if c = quote then some ⟨[], 1⟩
      else if c = '\\' then
        match rest with
        | [] => none
        | escaped :: behind =>
            match escape? quote escaped with
            | some meaning => (readString? quote behind).map (.cons meaning 2)
            | none => (readString? quote (escaped :: behind)).map (.cons '\\' 1)
      else (readString? quote rest).map (.cons c 1)

end EmbeddedMarkup
