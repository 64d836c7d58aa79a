/-
This file shows a value to whoever runs a command: as JSON, as one line for each of its members, or as
an indented tree, in which keys and values may be colored. The tree has no blanks at its end.
-/

import ApiSurface.Fault
import ApiSurface.Json.Writer
import ApiSurface.Text.Blank
import ApiSurface.Text.Case
import ApiSurface.Text.Search

namespace ApiSurface

/-- A way to show a value. -/
inductive OutputFormat where
  /-- JSON with one member or item a line. -/
  | json
  /-- A line for each member or item. -/
  | text
  /-- An indented tree. -/
  | pretty
  deriving DecidableEq, Repr, Inhabited

namespace OutputFormat

/-- All formats. -/
def all : List OutputFormat := [.json, .text, .pretty]

/-- The name of a format. -/
def name : OutputFormat → String
  | .json => "json"
  | .text => "text"
  | .pretty => "pretty"

/-- The format that a word names in any case. -/
def parse (word : String) : Except Fault OutputFormat :=
  match all.find? fun format => format.name == Text.folded word with
  | some format => .ok format
  | none =>
    .error (.invalidArgument s!"unknown output format '{word}', expected json, text or pretty")

end OutputFormat

namespace Output

/-! ### Colors -/

/-- A style in which a terminal can show a text. -/
inductive Style where
  | key
  | text
  | number
  | truth
  | faint
  deriving DecidableEq, Repr, Inhabited

/-- The sequence that switches a style on. -/
def Style.start : Style → List Char
  | .key => "\x1b[1;34m".toList
  | .text => "\x1b[32m".toList
  | .number => "\x1b[36m".toList
  | .truth => "\x1b[33m".toList
  | .faint => "\x1b[2m".toList

/-- The sequence that switches all styles off. -/
def reset : List Char := "\x1b[0m".toList

/-- A text in a style, if there are colors. Where the text switches styles off itself, the style is
switched on again. -/
def styled (colors : Bool) (style : Style) (content : List Char) : List Char :=
  if colors then
    style.start ++ Text.replaceAll reset (reset ++ style.start) content ++ reset
  else content

/-! ### Lines -/

/-- A value on one line: a text as it is, null not at all, all else as compact JSON. -/
def lineValue : Json → List Char
  | .text value => value.toList
  | .null => []
  | value => value.compactChars

/-- A line for each member or item of a value. -/
def linesOf : Json → List (List Char)
  | .object members => members.map fun (key, value) => key.toList ++ ':' :: ' ' :: lineValue value
  | .array items => items.map lineValue
  | value => [lineValue value]

/-! ### Trees -/

/-- A value without members or items. -/
def leaf (colors : Bool) : Json → List Char
  | .null => styled colors .faint "none".toList
  | .bool value => styled colors .truth (Json.bool value).compactChars
  | .number value => styled colors .number value.text
  | .text value => styled colors .text value.toList
  | .array _ => styled colors .faint ['[', ']']
  | .object _ => styled colors .faint ['\x7b', '\x7d']

/-- Whether a value has members or items. -/
def isBranch : Json → Bool
  | .array items => !items.isEmpty
  | .object members => !members.isEmpty
  | _ => false

/-- Whether a value is an array or an object. -/
def isContainer : Json → Bool
  | .array _ | .object _ => true
  | _ => false

/-- The indentation of a level. -/
def indentation (level : Nat) : List Char :=
  List.replicate (2 * level) ' '

mutual

/-- The tree of a value at a level. -/
def tree (colors : Bool) (level : Nat) : Json → List Char
  | .object members => treeMembers colors level members
  | .array items => treeItems colors level items
  | value => indentation level ++ leaf colors value ++ ['\n']

/-- The trees of members, each behind its key. -/
def treeMembers (colors : Bool) (level : Nat) : List (String × Json) → List Char
  | [] => []
  | (key, value) :: rest =>
    indentation level ++ styled colors .key key.toList ++
      (if isBranch value then ':' :: '\n' :: tree colors (level + 1) value
        else ':' :: ' ' :: leaf colors value ++ ['\n']) ++
      treeMembers colors level rest

/-- The trees of items, each behind a dash. -/
def treeItems (colors : Bool) (level : Nat) : List Json → List Char
  | [] => []
  | item :: rest =>
    indentation level ++ styled colors .faint ['-'] ++
      (if isContainer item then '\n' :: tree colors (level + 1) item
        else ' ' :: leaf colors item ++ ['\n']) ++
      treeItems colors level rest

end

/-- A value in a format. -/
def write (value : Json) (format : OutputFormat) (colors : Bool) : String :=
  match format with
  | .json => value.indented
  | .text => String.ofList (['\n'].intercalate (linesOf value))
  | .pretty => String.ofList (Text.trimEnd (tree colors 0 value))

end Output

end ApiSurface
