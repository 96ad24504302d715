/-!
# JSON

A JSON value keeps the order of the fields of its objects.  It is written on several lines, with
two spaces of indentation for each level; only empty lists and objects stay on one line.  In
strings the quotation mark, the backslash and the control characters below the space are
escaped, and nothing else.
-/

namespace EmbeddedMarkup

/-- A JSON value.  A number is given by its text. -/
inductive Json where
  | null
  | bool (value : Bool)
  | number (text : String)
  | string (value : String)
  | array (entries : List Json)
  | object (fields : List (String × Json))

namespace Json

/-- A natural number. -/
def nat (n : Nat) : Json :=
  .number (toString n)

/-- A value that may be absent. -/
def optional (value : Option Json) : Json :=
  value.getD .null

/-- A value with the name of its variant. -/
def tagged (name : String) (value : Json) : Json :=
  .object [(name, value)]

/-- A character as it stands in a JSON string. -/
def escapeChar (c : Char) : List Char :=
  if c = '"' then ['\\', '"']
  else if c = '\\' then ['\\', '\\']
  else if c = '\x08' then ['\\', 'b']
  else if c = '\t' then ['\\', 't']
  else if c = '\n' then ['\\', 'n']
  else if c = '\x0c' then ['\\', 'f']
  else if c = '\r' then ['\\', 'r']
  else if c < ' ' then
    ['\\', 'u', '0', '0', Nat.digitChar (c.toNat / 16), Nat.digitChar (c.toNat % 16)]
  else [c]

/-- A JSON string. -/
def quote (text : String) : String :=
  "\"" ++ String.ofList (text.toList.flatMap escapeChar) ++ "\""

/-- The start of a line at a level of indentation. -/
def lineStart (level : Nat) : String :=
  "\n" ++ String.ofList (List.replicate (2 * level) ' ')

mutual

/-- Write a value behind what is written already. -/
def writeAfter (written : String) (level : Nat) : Json → String
  | .null => written ++ "null"
  | .bool value => written ++ if value then "true" else "false"
  | .number text => written ++ text
  | .string value => written ++ quote value
  | .array [] => written ++ "[]"
  | .array (first :: rest) =>
      let opened := written ++ "[" ++ lineStart (level + 1)
      writeEntriesAfter (writeAfter opened (level + 1) first) (level + 1) rest ++
        lineStart level ++ "]"
  | .object [] => written ++ "\x7b\x7d"
  | .object ((name, first) :: rest) =>
      let opened := written ++ "\x7b" ++ lineStart (level + 1) ++ quote name ++ ": "
      writeFieldsAfter (writeAfter opened (level + 1) first) (level + 1) rest ++
        lineStart level ++ "\x7d"

/-- Write further entries of a list behind those that are written already. -/
def writeEntriesAfter (written : String) (level : Nat) : List Json → String
  | [] => written
  | entry :: entries =>
      writeEntriesAfter (writeAfter (written ++ "," ++ lineStart level) level entry) level entries

/-- Write further fields of an object behind those that are written already. -/
def writeFieldsAfter (written : String) (level : Nat) : List (String × Json) → String
  | [] => written
  | (name, value) :: fields =>
      let named := written ++ "," ++ lineStart level ++ quote name ++ ": "
      writeFieldsAfter (writeAfter named level value) level fields

end

/-- The text of a value. -/
def pretty (json : Json) : String :=
  json.writeAfter "" 0

end Json
end EmbeddedMarkup
