/-
This file cuts a JSON text into its tokens. Blanks between tokens are spaces, tabs, line feeds and
carriage returns. Texts are unescaped here and numbers are rounded here, so a token is either a mark
or a value that has no parts.
-/

import ApiSurface.Json.Pointer
import ApiSurface.Json.Writer

namespace ApiSurface.Json

/-- A token of a JSON text. -/
inductive Token where
  | openArray
  | closeArray
  | openObject
  | closeObject
  | comma
  | colon
  | scalar (value : Json)
  deriving Repr, Inhabited

/-! ### Texts -/

/-- The value of a digit of base sixteen in either case. -/
def hexValue? (character : Char) : Option Nat :=
  if Text.isDigit character then some (character.toNat - '0'.toNat)
  else if 'a' ≤ character && character ≤ 'f' then some (character.toNat - 'a'.toNat + 10)
  else if 'A' ≤ character && character ≤ 'F' then some (character.toNat - 'A'.toNat + 10)
  else none

/-- The number that four digits of base sixteen stand for. -/
def hexUnit? (a b c d : Char) : Option Nat := do
  let a ← hexValue? a
  let b ← hexValue? b
  let c ← hexValue? c
  let d ← hexValue? d
  return ((a * 16 + b) * 16 + c) * 16 + d

/-- The character that a backslash and this character stand for. -/
def unescaped? : Char → Option Char
  | '"' => some '"'
  | '\\' => some '\\'
  | '/' => some '/'
  | 'b' => some '\x08'
  | 'f' => some '\x0c'
  | 'n' => some '\n'
  | 'r' => some '\r'
  | 't' => some '\t'
  | _ => none

/-- Reads the inside of a text up to its closing quotation mark and gives what follows as well. A
unit from D800 to DBFF must be followed by one from DC00 to DFFF, with which it makes a character;
any other unit in that range, an unknown escape or a bare character below U+0020 is refused. -/
def readQuoted : List Char → Option (List Char × List Char)
  | [] => none
  | '"' :: rest => some ([], rest)
  | '\\' :: 'u' :: a :: b :: c :: d :: rest => do
    let unit ← hexUnit? a b c d
    if unit < 0xD800 || 0xDFFF < unit then
      let (read, after) ← readQuoted rest
      return (Char.ofNat unit :: read, after)
    else
      match rest with
      | '\\' :: 'u' :: e :: f :: g :: h :: others =>
        let low ← hexUnit? e f g h
        if unit < 0xDC00 && 0xDC00 ≤ low && low ≤ 0xDFFF then
          let (read, after) ← readQuoted others
          return (Char.ofNat (0x10000 + (unit - 0xD800) * 0x400 + (low - 0xDC00)) :: read, after)
        else none
      | _ => none
  | '\\' :: letter :: rest => do
    let character ← unescaped? letter
    let (read, after) ← readQuoted rest
    return (character :: read, after)
  | character :: rest =>
    if character.toNat < 0x20 || character = '\\' then none
    else do
      let (read, after) ← readQuoted rest
      return (character :: read, after)

/-! ### Numbers -/

/-- Adds decimal digits to a number as long as it stays within 64 bits; gives the number and how many
digits were added and how many were left. -/
def addDigits (value : Nat) : List Char → Nat × Nat × Nat
  | [] => (value, 0, 0)
  | digit :: rest =>
    let next := value * 10 + (digit.toNat - '0'.toNat)
    if next < Decimal.twoTo 64 then
      let (result, added, left) := addDigits next rest
      (result, added + 1, left)
    else (value, 0, rest.length + 1)

/-- Rounds the digits to a double, the power of ten to a double, and their product or quotient to a
double. Powers beyond `10 ^ 308` divide in two steps. -/
def scaled? (digits : Nat) (power : Int) : Option Decimal.Binary64 := do
  let whole ← Decimal.Binary64.ofDecimal? false digits 0
  if whole.isZero then return whole
  if 308 < power then none
  else if 0 ≤ power then whole.multiply? (← Decimal.Binary64.ofDecimal? false 1 power)
  else if -308 ≤ power then whole.divide? (← Decimal.Binary64.ofDecimal? false 1 (-power))
  else
    let smaller ← whole.divide? (← Decimal.Binary64.ofDecimal? false 1 308)
    if -616 ≤ power then smaller.divide? (← Decimal.Binary64.ofDecimal? false 1 (-power - 308))
    else return Decimal.Binary64.zero false

/-- The parts of a number as written. -/
structure Numeral where
  /-- Whether a minus sign stands in front. -/
  negative : Bool
  /-- The digits before the point. -/
  whole : List Char
  /-- The digits after the point, if there is a point. -/
  fraction : Option (List Char)
  /-- Whether the exponent is negative, and its digits, if there is one. -/
  exponent : Option (Bool × List Char)
  deriving Repr, Inhabited

/-- The number that a numeral stands for, or nothing when it is too large. A numeral without point and
exponent is a whole number if it is in range and is not minus zero. -/
def Numeral.number? (numeral : Numeral) : Option Number := do
  let (digits, _, left) := addDigits 0 numeral.whole
  let signed : Int := if numeral.negative then -(digits : Int) else digits
  let asInt := left == 0 && leastInt ≤ signed && !(numeral.negative && digits == 0)
  if numeral.fraction.isNone && numeral.exponent.isNone && asInt then return .int signed
  let (digits, added, _) := addDigits digits (numeral.fraction.getD [])
  let power : Int := (left : Int) - added
  let (smaller, exponent) := match numeral.exponent with
    | none => (false, 0)
    | some (smaller, written) => (smaller, natOfDigits written)
  let size ←
    if exponent < Decimal.twoTo 31 then scaled? digits (if smaller then power - exponent else power + exponent)
    else if digits = 0 || smaller then some (Decimal.Binary64.zero false)
    else none
  return .double (if numeral.negative then size.negate else size)

/-- Reads a point and the digits after it, if a point comes. -/
def readFraction : List Char → Option (Option (List Char) × List Char)
  | '.' :: after =>
    let digits := after.takeWhile Text.isDigit
    if digits.isEmpty then none else some (some digits, after.dropWhile Text.isDigit)
  | rest => some (none, rest)

/-- Whether the sign of an exponent is a minus, and what follows the sign. -/
def exponentSign : List Char → Bool × List Char
  | '-' :: digits => (true, digits)
  | '+' :: digits => (false, digits)
  | digits => (false, digits)

/-- Reads an exponent, if one comes. -/
def readExponent : List Char → Option (Option (Bool × List Char) × List Char)
  | [] => some (none, [])
  | mark :: after =>
    if mark == 'e' || mark == 'E' then
      let (smaller, after) := exponentSign after
      let digits := after.takeWhile Text.isDigit
      if digits.isEmpty then none
      else some (some (smaller, digits), after.dropWhile Text.isDigit)
    else some (none, mark :: after)

/-- Reads a number after its sign and gives what follows as well. The digits before the point are one
zero or start with another digit; a point and an exponent are each followed by a digit. -/
def readNumeral (negative : Bool) (characters : List Char) : Option (Numeral × List Char) := do
  let whole := characters.takeWhile Text.isDigit
  if whole.isEmpty || (whole.head? == some '0' && whole != ['0']) then none
  let (fraction, rest) ← readFraction (characters.dropWhile Text.isDigit)
  let (exponent, rest) ← readExponent rest
  return (⟨negative, whole, fraction, exponent⟩, rest)

/-! ### Tokens -/

/-- Whether a character may stand between tokens. -/
def isSpacing (character : Char) : Bool :=
  character == ' ' || character == '\n' || character == '\t' || character == '\r'

/-- Reads a number after its sign as a token and gives what follows as well. -/
def readNumber (negative : Bool) (characters : List Char) : Option (Token × List Char) := do
  let (numeral, after) ← readNumeral negative characters
  return (.scalar (.number (← numeral.number?)), after)

/-- Reads the token that starts with the given character and gives what follows as well. -/
def readToken (first : Char) (rest : List Char) : Option (Token × List Char) :=
  match first with
  | '[' => some (.openArray, rest)
  | ']' => some (.closeArray, rest)
  | '{' => some (.openObject, rest)
  | '}' => some (.closeObject, rest)
  | ',' => some (.comma, rest)
  | ':' => some (.colon, rest)
  | '"' => (readQuoted rest).map fun (value, after) => (.scalar (.text (String.ofList value)), after)
  | 'n' => (Text.dropLead? "ull".toList rest).map fun after => (.scalar .null, after)
  | 't' => (Text.dropLead? "rue".toList rest).map fun after => (.scalar (.bool true), after)
  | 'f' => (Text.dropLead? "alse".toList rest).map fun after => (.scalar (.bool false), after)
  | '-' => readNumber true rest
  | _ => readNumber false (first :: rest)

/-- Reads tokens to the end of the text, at most `fuel` of them. -/
def readTokens : Nat → List Char → Option (List Token)
  | 0, _ => none
  | fuel + 1, remaining =>
    match remaining.dropWhile isSpacing with
    | [] => some []
    | first :: rest => do
      let (token, after) ← readToken first rest
      return token :: (← readTokens fuel after)

/-- The tokens of a JSON text. Every token takes at least one character, so the fuel suffices. -/
def tokens? (characters : List Char) : Option (List Token) :=
  readTokens (characters.length + 1) characters

end ApiSurface.Json
