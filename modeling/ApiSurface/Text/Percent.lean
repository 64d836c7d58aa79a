/-
This file writes texts so that they can be a step of the path of a request. Letters, digits and four
marks stand for themselves; of any other character each byte is written as a percent sign and two
capital hexadecimal digits. So no text brings a slash, a question mark or a brace into a path.
-/

import ApiSurface.Text.Case

namespace ApiSurface.Text

/-- Whether a character stands for itself. -/
def isUnreserved (character : Char) : Bool :=
  isAlphanumeric character || ['-', '_', '.', '~'].contains character

/-- The capital hexadecimal digit of a number below sixteen. -/
def hexDigit (number : Nat) : Char :=
  if number < 10 then Char.ofNat ('0'.toNat + number) else Char.ofNat ('A'.toNat + number - 10)

/-- A byte as a percent sign and two digits. -/
def percentByte (byte : UInt8) : List Char :=
  ['%', hexDigit (byte.toNat / 16), hexDigit (byte.toNat % 16)]

/-- A character as it stands in a path. -/
def percentChar (character : Char) : List Char :=
  if isUnreserved character then [character]
  else (String.utf8EncodeChar character).flatMap percentByte

/-- A text as it stands in a path. -/
def percentEncode (text : List Char) : List Char :=
  text.flatMap percentChar

/-! ### Reading -/

/-- The number that a hexadecimal digit stands for, in either case. -/
def hexValue? (digit : Char) : Option Nat :=
  if isDigit digit then some (digit.toNat - '0'.toNat)
  else if 'A' ≤ digit && digit ≤ 'F' then some (digit.toNat - 'A'.toNat + 10)
  else if 'a' ≤ digit && digit ≤ 'f' then some (digit.toNat - 'a'.toNat + 10)
  else none

/-- The bytes that a text stands for. A percent sign that no two digits follow stands for itself. -/
def percentDecode : List Char → List UInt8
  | '%' :: first :: second :: rest =>
    match hexValue? first, hexValue? second with
    | some high, some low => UInt8.ofNat (16 * high + low) :: percentDecode rest
    | _, _ => String.utf8EncodeChar '%' ++ percentDecode (first :: second :: rest)
  | character :: rest => String.utf8EncodeChar character ++ percentDecode rest
  | [] => []

/-- The text that bytes written with percent signs stand for, if they are one. -/
def percentText? (text : List Char) : Option String :=
  String.fromUTF8? (ByteArray.mk (percentDecode text).toArray)

end ApiSurface.Text
