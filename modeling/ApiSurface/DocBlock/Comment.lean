/-
This file puts a documentation block into a block comment and takes it out again. In a comment each
line stands behind a gutter, an asterisk one column right of the indentation; an empty line has the
asterisk alone.
-/

import ApiSurface.Text.Line
import ApiSurface.Text.Search

namespace ApiSurface.DocBlock

/-- One line of a comment with its line feed. -/
def gutterLine (indent line : List Char) : List Char :=
  if line.isEmpty then indent ++ [' ', '*', '\n']
  else indent ++ ' ' :: '*' :: ' ' :: line ++ ['\n']

/-- A text as a block comment behind an indentation. -/
def commentChars (text indent : List Char) : List Char :=
  indent ++ "/**\n".toList ++ (Text.lines text).flatMap (gutterLine indent) ++ indent ++ " */".toList

/-- A text as a block comment behind an indentation. -/
def toComment (text indent : String) : String :=
  String.ofList (commentChars text.toList indent.toList)

/-- A line of a comment without its gutter and without the blanks at its end. -/
def withoutGutter (line : List Char) : List Char :=
  let line := Text.trimStart line
  let line := (Text.dropLead? ['*'] line).getD line
  Text.trimEnd ((Text.dropLead? [' '] line).getD line)

/-- The text that a block comment holds. Marks that are missing are not missed. -/
def strippedChars (comment : List Char) : List Char :=
  let body := Text.trim comment
  let body := (Text.dropLead? "/**".toList body).getD body
  let body := (Text.dropTail? "*/".toList body).getD body
  Text.trimLineFeeds (Text.joinLines ((Text.lines body).map withoutGutter))

/-- The text that a block comment holds. -/
def ofComment (comment : String) : String :=
  String.ofList (strippedChars comment.toList)

end ApiSurface.DocBlock
