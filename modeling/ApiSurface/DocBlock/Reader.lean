/-
This file reads a documentation block. Headers cut the lines into parts, and each part is read by
itself: the summary is its lines without the blanks around them, the result is one line, the tags are
one list, and arguments and failures are entries. The first line of a part sets its indentation. A
line indented no deeper that looks like the head of an entry starts one, and any other line continues
the entry before it. Reading never fails: lines before the first entry of a part are passed over.
-/

import ApiSurface.DocBlock.Basic
import ApiSurface.DocBlock.Section

namespace ApiSurface.DocBlock

/-! ### Parts -/

/-- The lines before the first header, and each header with the lines up to the next one. -/
def parts : List (List Char) → List (List Char) × List (Section × List (List Char))
  | [] => ([], [])
  | line :: rest =>
    let (lead, found) := parts rest
    match Section.ofLine? line with
    | some opened => ([], (opened, lead) :: found)
    | none => (line :: lead, found)

/-- The lines of the parts of one section, a list for each part, without the blank lines. -/
def partsOf (wanted : Section) (found : List (Section × List (List Char))) :
    List (List (List Char)) :=
  (found.filter fun part => part.1 == wanted).map fun part =>
    part.2.filter fun line => !(Text.trim line).isEmpty

/-- The lines in one, each without the blanks around it and a space between each two. -/
def folded (lines : List (List Char)) : List Char :=
  [' '].intercalate ((lines.map Text.trim).filter fun line => !line.isEmpty)

/-! ### Entries -/

/-- How deep a line is indented, where a tab counts as four. -/
def indentation (line : List Char) : Nat :=
  ((line.takeWhile Text.isBlank).map fun blank => if blank = '\t' then 4 else 1).foldr (· + ·) 0

/-- What follows a colon, if the colon is followed by a blank or by nothing. -/
def afterColon? : List Char → Option (List Char)
  | [':'] => some []
  | ':' :: next :: rest => if Text.isBlank next then some (Text.trim rest) else none
  | _ => none

/-- A name and what follows it, where the given characters continue a name. -/
def leadingName? (continues : Char → Bool) : List Char → Option (List Char × List Char)
  | [] => none
  | first :: rest =>
    if Text.startsName first then
      some (first :: rest.takeWhile continues, rest.dropWhile continues)
    else none

/-- Reads the head of an argument: its name, its type in parentheses if there is one, and a colon. -/
def argumentHead? (line : List Char) : Option ((List Char × List Char) × List Char) := do
  let (name, rest) ← leadingName? Text.continuesName line
  match Text.trimStart rest with
  | '(' :: inner =>
    let (hint, rest) := inner.span (· != ')')
    (afterColon? (Text.trimStart (rest.drop 1))).map fun text => ((name, Text.trim hint), text)
  | rest => (afterColon? rest).map fun text => ((name, []), text)

/-- Reads the head of a failure: its kind, which may hold dots, and a colon. -/
def failureHead? (line : List Char) : Option (List Char × List Char) := do
  let (kind, rest) ←
    leadingName? (fun character => Text.continuesName character || character == '.') line
  (afterColon? (Text.trimStart rest)).map fun text => (kind, text)

/-- Gathers the lines of a part into entries; gives the lines before the first entry as well. -/
def gather {Head : Type} (head? : List Char → Option (Head × List Char)) (base : Nat) :
    List (List Char) → List (List Char) × List (Head × List (List Char))
  | [] => ([], [])
  | line :: rest =>
    let (loose, found) := gather head? base rest
    match if indentation line ≤ base then head? (Text.trim line) else none with
    | some (head, text) => ([], (head, text :: loose) :: found)
    | none => (line :: loose, found)

/-- The entries of a part: the head of each and its text on one line. -/
def entries {Head : Type} (head? : List Char → Option (Head × List Char))
    (lines : List (List Char)) : List (Head × List Char) :=
  let base := (lines.head?.map indentation).getD 0
  (gather head? base lines).2.map fun entry => (entry.1, folded entry.2)

/-- The argument that an entry stands for. -/
def argumentOf (entry : (List Char × List Char) × List Char) : Argument where
  name := String.ofList entry.1.1
  description := String.ofList entry.2
  typeHint := if entry.1.2.isEmpty then none else some (String.ofList entry.1.2)

/-- The failure that an entry stands for. -/
def failureOf (entry : List Char × List Char) : Failure where
  kind := String.ofList entry.1
  description := String.ofList entry.2

/-! ### Tags -/

/-- Cuts a tag list at its commas. Between quotation marks a comma belongs to the tag, and a backslash
stands for the character after it. -/
def cutTags (quoted : Bool) (current : List Char) : List Char → List (List Char)
  | [] => [current]
  | '"' :: rest => cutTags (!quoted) current rest
  | '\\' :: next :: rest =>
    if quoted then cutTags quoted (current ++ [next]) rest
    else cutTags quoted (current ++ ['\\']) (next :: rest)
  | ['\\'] => if quoted then [current] else [current ++ ['\\']]
  | character :: rest =>
    if character = ',' && !quoted then current :: cutTags quoted [] rest
    else cutTags quoted (current ++ [character]) rest

/-- The tags of a tag list: trimmed, the empty ones left out. -/
def tagsOf (text : List Char) : List (List Char) :=
  ((cutTags false [] text).map Text.trim).filter fun tag => !tag.isEmpty

/-! ### Blocks -/

/-- The summary that the lines before the first header stand for. -/
def summaryOf (lines : List (List Char)) : List Char :=
  Text.trim (Text.joinLines (lines.map fun line => unescapedLine (Text.trim line)))

/-- Reads a documentation block. -/
def parse (text : String) : DocBlock :=
  let (lead, found) := parts (Text.lines text.toList)
  { summary := String.ofList (summaryOf lead)
    arguments :=
      Keyed.putAll Argument.name []
        (((partsOf .arguments found).flatMap (entries argumentHead?)).map argumentOf)
    returns := String.ofList (folded (partsOf .returns found).flatten)
    failures :=
      Keyed.putAll Failure.kind []
        (((partsOf .failures found).flatMap (entries failureHead?)).map failureOf)
    tags := (tagsOf (folded (partsOf .tags found).flatten)).map String.ofList }

end ApiSurface.DocBlock
