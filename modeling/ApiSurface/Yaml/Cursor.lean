/-
This file walks through a YAML text. A cursor holds what is left of the text and where it starts: how
many characters came before, on which line and in which column. A line ends at a line feed, a carriage
return, both together, or one of the three separators beyond ASCII.
-/

import ApiSurface.Json.Token

namespace ApiSurface.Yaml

/-! ### Characters -/

/-- Whether a text may hold the character. -/
def isAllowed (character : Char) : Bool :=
  let code := character.toNat
  code == 0x9 || code == 0xA || code == 0xD || (0x20 ≤ code && code ≤ 0x7E) || code == 0x85 ||
    (0xA0 ≤ code && code ≤ 0xFFFD) || 0x10000 ≤ code

/-- Whether the character is a space or a tab. -/
def isGap (character : Char) : Bool := character == ' ' || character == '\t'

/-- Whether the character ends a line. -/
def isBreak (character : Char) : Bool :=
  character == '\n' || character == '\r' || character == '\u0085' || character == '\u2028' ||
    character == '\u2029'

/-- Whether the character may stand in the name of an anchor. -/
def isWordCharacter (character : Char) : Bool :=
  Text.continuesName character || character == '-'

/-- Whether a text starts with a gap or a line end, or is empty. -/
def atGapOrEnd : List Char → Bool
  | [] => true
  | first :: _ => isGap first || isBreak first

/-- Whether a text starts with a line end or is empty. -/
def atLineEnd : List Char → Bool
  | [] => true
  | first :: _ => isBreak first

/-! ### Cursors -/

/-- A place in a text. -/
structure Cursor where
  /-- The text from here on. -/
  rest : List Char
  /-- How many characters came before. -/
  index : Nat
  /-- The line, counted from zero. -/
  line : Nat
  /-- The column, counted from zero. -/
  column : Nat
  deriving Repr, Inhabited

namespace Cursor

/-- The start of a text. -/
def start (text : List Char) : Cursor := ⟨text, 0, 0, 0⟩

/-- The next character. -/
def peek? (cursor : Cursor) : Option Char := cursor.rest.head?

/-- Whether the next character is the given one. -/
def isAt (cursor : Cursor) (character : Char) : Bool := cursor.rest.head? == some character

/-- Whether the next character satisfies a test. -/
def isAtAny (cursor : Cursor) (test : Char → Bool) : Bool := (cursor.rest.head?.map test).getD false

/-- The place after one character on the same line. -/
def skip (cursor : Cursor) : Cursor :=
  match cursor.rest with
  | [] => cursor
  | _ :: rest => ⟨rest, cursor.index + 1, cursor.line, cursor.column + 1⟩

/-- The place after a number of characters on the same line. -/
def skipMany (cursor : Cursor) : Nat → Cursor
  | 0 => cursor
  | count + 1 => (cursor.skip).skipMany count

/-- The place after all characters that satisfy a test, which no line end does. -/
def skipWhile (test : Char → Bool) (cursor : Cursor) : Cursor :=
  let taken := (cursor.rest.takeWhile test).length
  ⟨cursor.rest.drop taken, cursor.index + taken, cursor.line, cursor.column + taken⟩

/-- The place after a line end, and what the line end stands for in a text: a line feed, except that
the two separators above U+2000 stand for themselves. -/
def takeBreak (cursor : Cursor) : List Char × Cursor :=
  match cursor.rest with
  | '\r' :: '\n' :: rest => (['\n'], ⟨rest, cursor.index + 2, cursor.line + 1, 0⟩)
  | first :: rest =>
    let kept := if first == '\u2028' || first == '\u2029' then first else '\n'
    if isBreak first then ([kept], ⟨rest, cursor.index + 1, cursor.line + 1, 0⟩) else ([], cursor)
  | [] => ([], cursor)

/-- The place after a line end. -/
def skipBreak (cursor : Cursor) : Cursor := cursor.takeBreak.2

/-- Whether three equal marks that start or end a document stand here. -/
def atDocumentMark (cursor : Cursor) (mark : Char) : Bool :=
  cursor.column == 0 &&
    match cursor.rest with
    | a :: b :: c :: rest => a == mark && b == mark && c == mark && atGapOrEnd rest
    | _ => false

/-- Whether a document starts or ends here. -/
def atDocumentEdge (cursor : Cursor) : Bool :=
  cursor.atDocumentMark '-' || cursor.atDocumentMark '.'

/-- The place after the blanks, the comment and the line end that end a line, if nothing else is left
on it. -/
def endOfLine? (cursor : Cursor) : Option Cursor :=
  let cursor := cursor.skipWhile isGap
  let cursor := if cursor.isAt '#' then cursor.skipWhile fun character => !isBreak character else cursor
  if atLineEnd cursor.rest then some cursor.skipBreak else none

end Cursor

end ApiSurface.Yaml
