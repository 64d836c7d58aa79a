/-
This file splits a text into its lines. A line ends at a line feed, a carriage return directly
before that line feed belongs to the ending, and a text that ends with a line feed has no further
empty line. A last line that no line feed ends keeps its carriage return. A paragraph ends at an empty
line. Places of a text are counted in bytes where others count them that way.
-/

import ApiSurface.Text.Blank
import ApiSurface.Text.Search

namespace ApiSurface.Text

/-- Drops one carriage return at the end of a line, if there is one. -/
def dropReturn (line : List Char) : List Char :=
  if line.getLast? = some '\r' then line.dropLast else line

/-- Reads the pieces between line feeds as lines: the last piece is a line only if it holds
something. -/
def linesOfPieces : List (List Char) → List (List Char)
  | [] => []
  | [last] => if last.isEmpty then [] else [last]
  | line :: next :: rest => dropReturn line :: linesOfPieces (next :: rest)

/-- The lines of a text without their endings. -/
def lines (text : List Char) : List (List Char) :=
  linesOfPieces (text.splitOnP (· == '\n'))

/-- Puts a line feed between each two lines. -/
def joinLines (lines : List (List Char)) : List Char :=
  ['\n'].intercalate lines

/-- Drops the line feeds at both ends of a text. -/
def trimLineFeeds (text : List Char) : List Char :=
  dropEndWhile (· == '\n') (text.dropWhile (· == '\n'))

/-- The number of bytes that a text takes in UTF-8. -/
def byteLength (text : List Char) : Nat :=
  (text.map Char.utf8Size).foldr (· + ·) 0

/-- Splits a text behind so many bytes, unless that is inside a character or behind the end. -/
def splitBytes? : Nat → List Char → Option (List Char × List Char)
  | 0, text => some ([], text)
  | _ + 1, [] => none
  | count + 1, character :: rest =>
    if character.utf8Size ≤ count + 1 then
      (splitBytes? (count + 1 - character.utf8Size) rest).map fun (before, after) =>
        (character :: before, after)
    else none

/-- The part of a text from one place to another, both counted in bytes. -/
def cutBytes? (start stop : Nat) (text : List Char) : Option (List Char) :=
  if start ≤ stop then do
    let (_, behind) ← splitBytes? start text
    let (part, _) ← splitBytes? (stop - start) behind
    return part
  else none

/-- The first paragraph of a text on one line. -/
def firstParagraph (text : String) : String :=
  let first := match splitFirst? ['\n', '\n'] text.toList with
    | some (before, _) => before
    | none => text.toList
  String.ofList (joinedWords first)

end ApiSurface.Text
