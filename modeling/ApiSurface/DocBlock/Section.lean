/-
This file says which lines of a documentation block are section headers, and how a summary line that
would read as a header is kept apart from one. Such a line is written with a backslash in front. A
line that already starts with a backslash before a header gets one more, so taking one backslash away
is always exact.
-/

import ApiSurface.Text.Case
import ApiSurface.Text.Line
import ApiSurface.Text.Search

namespace ApiSurface.DocBlock

/-- The sections that a header can open. -/
inductive Section where
  | arguments
  | returns
  | failures
  | tags
  deriving DecidableEq, Repr, Inhabited

/-- The section that a keyword in small letters names. -/
def Section.ofKeyword? (keyword : List Char) : Option Section :=
  if keyword ∈ ["args".toList, "arguments".toList, "parameters".toList] then some .arguments
  else if keyword ∈ ["returns".toList, "return".toList] then some .returns
  else if keyword ∈ ["raises".toList, "throws".toList] then some .failures
  else if keyword = "tags".toList then some .tags
  else none

/-- The section that a line opens: a keyword in any case, a colon, and blanks around both. -/
def Section.ofLine? (line : List Char) : Option Section := do
  let keyword ← Text.dropTail? [':'] (Text.trim line)
  Section.ofKeyword? (Text.lower (Text.trimEnd keyword))

/-- Whether a trimmed line is a header behind any number of backslashes, where blanks may follow each
backslash. -/
def readsAsHeader : List Char → Bool
  | [] => false
  | first :: rest =>
    (Section.ofLine? (first :: rest)).isSome ||
      ((first == '\\' || Text.isBlank first) && readsAsHeader rest)

/-- Whether a summary line must be written with a backslash in front. -/
def needsEscape (line : List Char) : Bool :=
  readsAsHeader (Text.trim line)

/-- The summary line that a trimmed line of a block stands for. -/
def unescapedLine : List Char → List Char
  | [] => []
  | first :: rest => if first = '\\' && needsEscape rest then rest else first :: rest

/-- A summary line as a block writes it: the backslash stands after the blanks in front. -/
def escapedLine (line : List Char) : List Char :=
  if needsEscape line then line.takeWhile Text.isBlank ++ '\\' :: Text.trimStart line else line

end ApiSurface.DocBlock
