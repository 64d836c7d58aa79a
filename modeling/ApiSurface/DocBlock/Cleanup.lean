/-
This file cleans up documentation that a model wrote. A fence around it and the marks of a comment are
taken off, and what is left is brought into the form in which documentation is written, so that it
always reads back.
-/

import ApiSurface.DocBlock.Comment
import ApiSurface.DocBlock.Printer
import ApiSurface.DocBlock.Reader

namespace ApiSurface.DocBlock

/-- The mark that opens and closes a fence. -/
def fence : List Char := ['\x60', '\x60', '\x60']

/-- What comes after the first line feed of a text. -/
def afterFirstLine (text : List Char) : List Char :=
  (text.dropWhile (· != '\n')).drop 1

/-- A text without the fence around it. What stands behind the opening mark is not part of the text,
and the closing mark may be missing. -/
def withoutFence (text : List Char) : List Char :=
  match Text.dropLead? fence text with
  | none => text
  | some rest =>
    let body := afterFirstLine rest
    Text.trim ((Text.dropTail? fence (Text.trimEnd body)).getD body)

/-- A text without the marks of a comment, if it starts with one. -/
def withoutComment (text : List Char) : List Char :=
  if (Text.dropLead? "/**".toList text).isSome then strippedChars text else text

/-- Documentation in the form in which it is written, unless it says nothing. -/
def normalize? (text : String) : Option String :=
  let body := withoutComment (withoutFence (Text.trim text.toList))
  let block := parse (String.ofList body)
  if block.isEmpty then none else some block.render

end ApiSurface.DocBlock
