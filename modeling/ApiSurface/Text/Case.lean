/-
This file changes the case of letters and sorts characters into the classes that identifiers are
made of. Only the letters of ASCII have a case here, and only ASCII letters and digits count as
such: a name that the library writes into a program is built from these classes alone. Beside them stand
the decimal digits of any script, which have their ten places each, so a table of the places where they
start is enough.
-/

namespace ApiSurface.Text

/-- Whether a character is one of `A` to `Z` or `a` to `z`. -/
def isLetter (character : Char) : Bool :=
  ('a' ≤ character && character ≤ 'z') || ('A' ≤ character && character ≤ 'Z')

/-- Whether a character is one of `A` to `Z`. -/
def isCapital (character : Char) : Bool :=
  'A' ≤ character && character ≤ 'Z'

/-- Whether a character is one of `a` to `z`. -/
def isSmall (character : Char) : Bool :=
  'a' ≤ character && character ≤ 'z'

/-- Whether a character is one of `0` to `9`. -/
def isDigit (character : Char) : Bool :=
  '0' ≤ character && character ≤ '9'

/-- Whether a character is an ASCII letter or digit. -/
def isAlphanumeric (character : Char) : Bool :=
  isLetter character || isDigit character

/-- Whether an identifier may start with the character: an ASCII letter or an underscore. -/
def startsName (character : Char) : Bool :=
  isLetter character || character == '_'

/-- Whether an identifier may continue with the character: an ASCII letter, digit or underscore. -/
def continuesName (character : Char) : Bool :=
  isAlphanumeric character || character == '_'

/-- A capital letter becomes the small one, any other character stays. -/
def lower (text : List Char) : List Char :=
  text.map Char.toLower

/-- A small letter becomes the capital one, any other character stays. -/
def upper (text : List Char) : List Char :=
  text.map Char.toUpper

/-- A text with the case of its letters ignored. -/
def folded (text : String) : String :=
  String.ofList (lower text.toList)

/-! ### Digits of any script -/

/-- The places of the digits zero of all scripts, in ascending order. -/
def decimalZeros : List Nat :=
  [0x30, 0x660, 0x6F0, 0x7C0, 0x966, 0x9E6, 0xA66, 0xAE6, 0xB66, 0xBE6, 0xC66, 0xCE6, 0xD66, 0xDE6,
    0xE50, 0xED0, 0xF20, 0x1040, 0x1090, 0x17E0, 0x1810, 0x1946, 0x19D0, 0x1A80, 0x1A90, 0x1B50,
    0x1BB0, 0x1C40, 0x1C50, 0xA620, 0xA8D0, 0xA900, 0xA9D0, 0xA9F0, 0xAA50, 0xABF0, 0xFF10, 0x104A0,
    0x10D30, 0x10D40, 0x11066, 0x110F0, 0x11136, 0x111D0, 0x112F0, 0x11450, 0x114D0, 0x11650,
    0x116C0, 0x116D0, 0x116DA, 0x11730, 0x118E0, 0x11950, 0x11BF0, 0x11C50, 0x11D50, 0x11DA0,
    0x11F50, 0x16130, 0x16A60, 0x16AC0, 0x16B50, 0x16D70, 0x1CCF0, 0x1D7CE, 0x1D7D8, 0x1D7E2,
    0x1D7EC, 0x1D7F6, 0x1E140, 0x1E2F0, 0x1E4F0, 0x1E5F1, 0x1E950, 0x1FBF0]

/-- A character is a decimal digit when it has the Unicode category Nd. -/
def isDecimal (character : Char) : Bool :=
  let code := character.toNat
  decimalZeros.any fun start => start ≤ code && code < start + 10

end ApiSurface.Text
