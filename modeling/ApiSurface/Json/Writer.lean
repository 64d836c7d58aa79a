/-
This file writes JSON values, either without any blank or with one member or item a line, indented by
two spaces a level. In a text only the quotation mark, the backslash and the characters below U+0020
are escaped, with the short escape where there is one.
-/

import ApiSurface.Json.Value

namespace ApiSurface.Json

/-! ### Texts -/

/-- A digit of base sixteen in its small form. -/
def hexDigit (value : Nat) : Char :=
  if value < 10 then Char.ofNat ('0'.toNat + value) else Char.ofNat ('a'.toNat + (value - 10))

/-- The characters that stand for one character inside quotation marks. -/
def escaped (character : Char) : List Char :=
  if character = '"' then ['\\', '"']
  else if character = '\\' then ['\\', '\\']
  else if character = '\x08' then ['\\', 'b']
  else if character = '\t' then ['\\', 't']
  else if character = '\n' then ['\\', 'n']
  else if character = '\x0c' then ['\\', 'f']
  else if character = '\r' then ['\\', 'r']
  else if character.toNat < 0x20 then
    ['\\', 'u', '0', '0', hexDigit (character.toNat / 16), hexDigit (character.toNat % 16)]
  else [character]

/-- A text between quotation marks. -/
def quoted (value : String) : List Char :=
  '"' :: value.toList.flatMap escaped ++ ['"']

/-! ### Compact form -/

mutual

/-- The characters of a value without any blank. -/
def compactChars : Json → List Char
  | .null => ['n', 'u', 'l', 'l']
  | .bool true => ['t', 'r', 'u', 'e']
  | .bool false => ['f', 'a', 'l', 's', 'e']
  | .number value => value.text
  | .text value => quoted value
  | .array items => '[' :: compactItems items ++ [']']
  | .object members => '{' :: compactMembers members ++ ['}']

/-- The characters of items with a comma between each two. -/
def compactItems : List Json → List Char
  | [] => []
  | [item] => compactChars item
  | item :: next :: rest => compactChars item ++ ',' :: compactItems (next :: rest)

/-- The characters of members with a comma between each two. -/
def compactMembers : List (String × Json) → List Char
  | [] => []
  | [(key, value)] => quoted key ++ ':' :: compactChars value
  | (key, value) :: next :: rest =>
    quoted key ++ ':' :: compactChars value ++ ',' :: compactMembers (next :: rest)

end

/-- A value without any blank. -/
def compact (value : Json) : String :=
  String.ofList value.compactChars

/-! ### Indented form -/

/-- A line feed and the indentation of a level. -/
def newLine (level : Nat) : List Char :=
  '\n' :: List.replicate (2 * level) ' '

mutual

/-- The characters of a value in indented form, which starts on a line of the given level. -/
def indentedChars (level : Nat) : Json → List Char
  | .null => ['n', 'u', 'l', 'l']
  | .bool true => ['t', 'r', 'u', 'e']
  | .bool false => ['f', 'a', 'l', 's', 'e']
  | .number value => value.text
  | .text value => quoted value
  | .array [] => ['[', ']']
  | .array (first :: rest) =>
    '[' :: newLine (level + 1) ++ indentedChars (level + 1) first ++ indentedItems (level + 1) rest ++
      newLine level ++ [']']
  | .object [] => ['{', '}']
  | .object ((key, value) :: rest) =>
    '{' :: newLine (level + 1) ++ quoted key ++ ':' :: ' ' :: indentedChars (level + 1) value ++
      indentedMembers (level + 1) rest ++ newLine level ++ ['}']

/-- The characters of further items, a comma before each. -/
def indentedItems (level : Nat) : List Json → List Char
  | [] => []
  | item :: rest => ',' :: newLine level ++ indentedChars level item ++ indentedItems level rest

/-- The characters of further members, a comma before each. -/
def indentedMembers (level : Nat) : List (String × Json) → List Char
  | [] => []
  | (key, value) :: rest =>
    ',' :: newLine level ++ quoted key ++ ':' :: ' ' :: indentedChars level value ++
      indentedMembers level rest

end

/-- A value with one member or item a line. -/
def indented (value : Json) : String :=
  String.ofList (value.indentedChars 0)

end ApiSurface.Json
