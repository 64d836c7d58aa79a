/-
This file finds the words that a name is made of, in whatever way it joins them, and joins them anew:
small with underscores, or each with a capital. Words are runs of ASCII letters and digits. Inside a
run a word ends before a capital that follows a small letter, or a digit of a word that holds letters;
and a run of capitals ends before its last one if a small letter follows.
-/

import ApiSurface.Text.Case

namespace ApiSurface.Name

/-- The runs of letters and digits of a text. -/
def runs (text : List Char) : List (List Char) :=
  (text.splitOnP fun character => !Text.isAlphanumeric character).filter fun run => !run.isEmpty

/-- Whether a word ends between two characters of a run; `word` is the word so far, and `next` is what
follows the second character. -/
def isBoundary (word : List Char) (previous character : Char) (next : List Char) : Bool :=
  Text.isCapital character &&
    (Text.isSmall previous ||
      (Text.isDigit previous && !word.all Text.isDigit) ||
      (Text.isCapital previous && next.head?.any Text.isSmall))

/-- Cuts a run into its words, in small letters, after the word so far and its last character. -/
def cutRun (word : List Char) (previous : Char) : List Char → List (List Char)
  | [] => [word]
  | character :: rest =>
    if isBoundary word previous character rest then
      word :: cutRun [character.toLower] character rest
    else cutRun (word ++ [character.toLower]) character rest

/-- The words of a run, in small letters. -/
def wordsOfRun : List Char → List (List Char)
  | [] => []
  | first :: rest => cutRun [first.toLower] first rest

/-- The words of a text that hold a letter, in small letters. -/
def letteredWords (text : List Char) : List (List Char) :=
  ((runs text).flatMap wordsOfRun).filter fun word => !word.all Text.isDigit

/-- A name in small words with an underscore between each two. -/
def snake (text : String) : String :=
  String.ofList (['_'].intercalate (letteredWords text.toList))

/-- A word with its first letter made a capital. -/
def capitalized : List Char → List Char
  | [] => []
  | first :: rest => first.toUpper :: rest

/-- A name in which each run starts with a capital and nothing stands between runs. -/
def pascal (text : String) : String :=
  String.ofList ((runs text.toList).flatMap capitalized)

end ApiSurface.Name
