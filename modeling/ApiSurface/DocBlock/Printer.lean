/-
This file writes a documentation block. Sections are kept apart by one empty line and empty sections
are left out. Entries are indented by four spaces, and their words fill each line up to the wrapping
width; further lines are indented by eight. The first word always stays on the line of its head, so
no word is ever split.
-/

import ApiSurface.DocBlock.Basic
import ApiSurface.DocBlock.Section

namespace ApiSurface.DocBlock

/-- The greatest length of a wrapped line, in bytes. -/
def wrapWidth : Nat := 88

/-- What stands before an entry. -/
def entryIndent : List Char := "    ".toList

/-- What stands before a further line of an entry. -/
def continuationIndent : List Char := "        ".toList

/-! ### Wrapping -/

/-- The space between the end of a line and a further word, unless the line ends with one. -/
def separator (line : List Char) : List Char :=
  if line.getLast? = some ' ' then [] else [' ']

/-- Puts words on a line as long as they fit and starts further lines for the others; a line that has
no word yet takes one of any length. -/
def wrapWords (line : List Char) (hasWord : Bool) : List (List Char) → List (List Char)
  | [] => [line]
  | word :: rest =>
    let filled := line ++ separator line ++ word
    if !hasWord || Text.byteLength filled ≤ wrapWidth then wrapWords filled true rest
    else line :: wrapWords (continuationIndent ++ word) true rest

/-- The lines of an entry with the given head and text. -/
def wrapEntry (head text : List Char) : List (List Char) :=
  wrapWords head false (Text.words text)

/-! ### Sections -/

/-- The summary with each line escaped that would read as a header. -/
def summaryText (summary : String) : List Char :=
  Text.joinLines ((Text.lines summary.toList).map escapedLine)

/-- The head of an argument. -/
def argumentHead (argument : Argument) : List Char :=
  let name := entryIndent ++ argument.name.toList
  match argument.typeHint with
  | some hint => name ++ ' ' :: '(' :: hint.toList ++ [')', ':']
  | none => name ++ [':']

/-- The head of a failure. -/
def failureHead (failure : Failure) : List Char :=
  entryIndent ++ failure.kind.toList ++ [':']

/-- A tag, between quotation marks if it holds a comma or a quotation mark; there a backslash stands
before each backslash and each quotation mark. -/
def tagText (tag : String) : List Char :=
  let tag := tag.toList
  if tag.contains ',' || tag.contains '"' then
    let escape (character : Char) :=
      if character = '\\' || character = '"' then some ['\\', character] else none
    '"' :: Text.escapeWith escape tag ++ ['"']
  else tag

/-- The sections of a block that are not empty, in their order. -/
def sectionTexts (block : DocBlock) : List (List Char) :=
  (if block.summary.isEmpty then [] else [summaryText block.summary]) ++
  (if block.arguments.isEmpty then []
    else [Text.joinLines ("Args:".toList ::
      block.arguments.flatMap fun argument =>
        wrapEntry (argumentHead argument) argument.description.toList)]) ++
  (if block.returns.isEmpty then []
    else [Text.joinLines ("Returns:".toList :: wrapEntry entryIndent block.returns.toList)]) ++
  (if block.failures.isEmpty then []
    else [Text.joinLines ("Raises:".toList ::
      block.failures.flatMap fun failure =>
        wrapEntry (failureHead failure) failure.description.toList)]) ++
  (if block.tags.isEmpty then []
    else [Text.joinLines ["Tags:".toList,
      entryIndent ++ [',', ' '].intercalate (block.tags.map tagText)]])

/-- Writes a documentation block. -/
def render (block : DocBlock) : String :=
  String.ofList (['\n', '\n'].intercalate (sectionTexts block))

end ApiSurface.DocBlock
