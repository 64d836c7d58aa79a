/-
This file says which characters are blank and what that means for a text: what is left when its
ends are trimmed, and which words it holds. Texts are lists of characters here, so that each
function is a short recursion and a law about it is an induction; the rest of the library calls
them on strings through `String.toList`.
-/

namespace ApiSurface.Text

/-- A character is blank when it has the Unicode property White_Space. -/
def isBlank (character : Char) : Bool :=
  let code := character.toNat
  (0x9 ≤ code && code ≤ 0xD) || code == 0x20 || code == 0x85 || code == 0xA0 || code == 0x1680 ||
    (0x2000 ≤ code && code ≤ 0x200A) || code == 0x2028 || code == 0x2029 || code == 0x202F ||
    code == 0x205F || code == 0x3000

/-! ### Trimming -/

/-- Drops the blanks that a text starts with. -/
def trimStart (text : List Char) : List Char :=
  text.dropWhile isBlank

/-- Drops the longest run at the end of a text whose characters all satisfy the test. -/
def dropEndWhile (test : Char → Bool) : List Char → List Char
  | [] => []
  | first :: rest =>
    match dropEndWhile test rest with
    | [] => if test first then [] else [first]
    | kept => first :: kept

/-- Drops the blanks that a text ends with. -/
def trimEnd (text : List Char) : List Char :=
  dropEndWhile isBlank text

/-- Drops the blanks at both ends of a text. -/
def trim (text : List Char) : List Char :=
  trimEnd (trimStart text)

/-! ### Words -/

/-- The maximal runs of characters that are not blank, in order. -/
def words (text : List Char) : List (List Char) :=
  (text.splitOnP isBlank).filter fun word => !word.isEmpty

/-- The words of a text, one space between each two. -/
def joinedWords (text : List Char) : List Char :=
  [' '].intercalate (words text)

end ApiSurface.Text
