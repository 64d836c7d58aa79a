/-
This file reads templates. What stands between two pairs of braces is a tag: it shows a value, opens or
closes a block, starts the other part of a block or includes another template. A tag of a block that
has a line to itself takes that whole line with it; an inclusion that has a line to itself takes the
line feed.
-/

import ApiSurface.Template.Basic
import ApiSurface.Text.Blank
import ApiSurface.Text.Case
import ApiSurface.Text.Search

namespace ApiSurface.Template

/-! ### Tags -/

/-- What opens a block. -/
inductive Opening where
  /-- Goes through a list. -/
  | each (path : List String)
  /-- Depends on a condition. -/
  | when (path : List String)
  /-- A block that cannot be filled in. -/
  | unknown (name : String)
  deriving DecidableEq, Repr, Inhabited

namespace Opening

/-- The name by which the block is closed. -/
def name : Opening → String
  | .each _ => "each"
  | .when _ => "if"
  | .unknown name => name

end Opening

/-- A tag. -/
inductive Tag where
  /-- An element of its own. -/
  | element (content : Element)
  /-- The start of a block. -/
  | opening (block : Opening)
  /-- The start of the other part of a block. -/
  | otherwise
  /-- The end of the block with a name. -/
  | closing (name : String)
  deriving Repr, Inhabited

namespace Tag

/-- Whether the tag belongs to a block. -/
def ofBlock : Tag → Bool
  | .element _ => false
  | _ => true

/-- Whether the tag takes its line with it if it has it to itself. -/
def takesLine : Tag → Bool
  | .element (.inclusion _) => true
  | tag => tag.ofBlock

/-- Whether a character may stand in a name. -/
def isNameCharacter (character : Char) : Bool :=
  Text.continuesName character || character == '-' || character == '$' || 0x80 ≤ character.toNat

/-- The names of a path; `this` and a point stand for the value itself. -/
def path? (word : List Char) : Option (List String) :=
  if word = ['.'] then some []
  else
    let names := word.splitOnP (· == '.')
    if names.all fun name => !name.isEmpty && name.all isNameCharacter then
      match names.map String.ofList with
      | "this" :: rest => some rest
      | names => some names
    else none

/-- The names that are not free for values, because they stand for something to be done. -/
def actionNames : List String :=
  ["if", "unless", "each", "with", "lookup", "eq", "ne", "gt", "gte", "lt", "lte", "and", "or",
    "not", "len"]

/-- The names of actions that show nothing. -/
def silentNames : List String := ["log", "raw"]

/-- Shows the value that a path leads to. -/
def ofPath (path : List String) : Element :=
  match path with
  | [name] =>
    if actionNames.contains name then .unknown
    else if silentNames.contains name then .text ""
    else .value path
  | path => .value path

/-- The start of a block whose tag holds the words. -/
def openingOf? (words : List (List Char)) : Option Opening := do
  match words with
  | [] => none
  | name :: arguments =>
    let path ← path? name
    let name := ".".intercalate path
    match name, arguments with
    | "each", [argument] => return .each (← path? argument)
    | "if", [argument] => return .when (← path? argument)
    | _, _ => return .unknown name

/-- The tag with the given content. -/
def ofContent? (content : List Char) : Option Tag :=
  match Text.trim content with
  | [] => none
  | '#' :: rest => (openingOf? (Text.words rest)).map .opening
  | '/' :: rest =>
    match Text.words rest with
    | [name] => (path? name).map fun path => .closing (".".intercalate path)
    | _ => none
  | '>' :: rest =>
    match Text.words rest with
    | [name] => some (.element (.inclusion (String.ofList name)))
    | _ => none
  | trimmed =>
    match Text.words trimmed with
    | [word] =>
      if word = "else".toList then some .otherwise
      else (path? word).map fun path => .element (ofPath path)
    | _ => some (.element .unknown)

end Tag

/-! ### Splitting -/

/-- A text that holds tags: the text before the first of them, and each with the text after it. -/
structure Pieces where
  /-- The text before the first tag. -/
  first : List Char
  /-- The tags, each with the text up to the next one. -/
  tagged : List (List Char × List Char)
  deriving Repr, Inhabited

/-- Puts a character before all pieces. -/
def Pieces.push (pieces : Pieces) (character : Char) : Pieces :=
  { pieces with first := character :: pieces.first }

/-- What the splitter has just passed. -/
inductive Passing where
  /-- A text, in which tags may start. -/
  | outside
  /-- The beginning of a tag, with what it holds so far in reverse order. -/
  | inside (content : List Char)
  /-- A backslash before braces: the number of characters that are part of the text. -/
  | escaped (count : Nat)
  deriving DecidableEq, Repr, Inhabited

/-- How many characters after a backslash are part of the text whatever they are, if what follows it are
braces: the braces themselves, or else further backslashes, which take away the meaning of the first. -/
def escapedCount? (rest : List Char) : Option Nat :=
  match rest.span (· == '\\') with
  | ([], '\x7b' :: '\x7b' :: '\x7b' :: '\x7b' :: _) => some 4
  | (more, '\x7b' :: '\x7b' :: _) => some (if more.isEmpty then 2 else more.length)
  | _ => none

/-- Splits a text at its tags. A backslash before a pair of braces makes them part of the text; a
backslash before that backslash takes away its meaning. -/
def split? : Passing → List Char → Option Pieces
  | .inside _, [] => none
  | _, [] => some ⟨[], []⟩
  | .inside content, '\x7d' :: '\x7d' :: rest =>
    (split? .outside rest).map fun pieces =>
      ⟨[], (content.reverse, pieces.first) :: pieces.tagged⟩
  | .inside content, character :: rest => split? (.inside (character :: content)) rest
  | .escaped (count + 1), character :: rest =>
    (split? (if count = 0 then .outside else .escaped count) rest).map (·.push character)
  | _, '\\' :: rest =>
    match escapedCount? rest with
    | some count => split? (.escaped count) rest
    | none => (split? .outside rest).map (·.push '\\')
  | _, '\x7b' :: '\x7b' :: rest => split? (.inside []) rest
  | _, character :: rest => (split? .outside rest).map (·.push character)

/-! ### Lines -/

/-- Whether a character is a space or a tab. -/
def isSpace (character : Char) : Bool :=
  character == ' ' || character == '\t'

/-- Whether the line that a text ends with has no visible character. At the start of a template an
empty text ends with such a line. -/
def endsBlank (atStart : Bool) (before : List Char) : Bool :=
  match Text.dropEndWhile isSpace before with
  | [] => atStart
  | rest => rest.getLast?.any fun character => character == '\n' || character == '\r'

/-- Whether the line that a text starts with has no visible character. -/
def startsBlank (after : List Char) : Bool :=
  (after.dropWhile isSpace).head?.any fun character => character == '\n' || character == '\r'

/-- Drops what is left of a line of which the rest was taken. -/
def dropLineEnd (text : List Char) : List Char :=
  match text.dropWhile isSpace with
  | '\r' :: '\n' :: rest => rest
  | '\n' :: rest => rest
  | rest => rest

/-- A text or a tag. -/
inductive Piece where
  | text (content : List Char)
  | tag (content : Tag)
  deriving Repr, Inhabited

/-- Brings texts and tags into one sequence, without the lines that tags take with them. `before` is
the text before the first of the tags; its first line was taken if `taken` holds. -/
def sequence? (atStart taken : Bool) (before : List Char) :
    List (List Char × List Char) → Option (List Piece)
  | [] => some [.text (if taken then dropLineEnd before else before)]
  | (content, after) :: rest => do
    let tag ← Tag.ofContent? content
    let alone := tag.takesLine && endsBlank atStart before &&
      (startsBlank after || (tag.ofBlock && rest.isEmpty && after.isEmpty))
    let text := if taken then dropLineEnd before else before
    let text := if alone && tag.ofBlock then Text.dropEndWhile isSpace text else text
    return .text text :: .tag tag :: (← sequence? false alone after rest)

/-! ### Blocks -/

/-- A block that is still open. -/
structure OpenBlock where
  /-- What opened it. -/
  opening : Opening
  /-- The elements of its first part in reverse order, if the other part was started. -/
  first : Option (List Element)
  /-- The elements before the block in reverse order. -/
  before : List Element
  deriving Repr, Inhabited

/-- What was read of a template. -/
structure Reading where
  /-- The elements of the innermost open block in reverse order. -/
  elements : List Element
  /-- The open blocks, the innermost first. -/
  blocks : List OpenBlock
  deriving Repr, Inhabited

/-- The element for a block of which everything was read; `last` are the elements of its last part. -/
def OpenBlock.close (block : OpenBlock) (last : List Element) : Element :=
  let (body, otherwise) := match block.first with
    | some first => (first.reverse, some last.reverse)
    | none => (last.reverse, none)
  match block.opening with
  | .each path => .each path body otherwise
  | .when path => .when path body (otherwise.getD [])
  | .unknown _ => .unknown

/-- Reads one text or tag. -/
def Reading.step (reading : Reading) : Piece → Option Reading
  | .text [] => some reading
  | .text content =>
    some { reading with elements := .text (String.ofList content) :: reading.elements }
  | .tag (.element element) => some { reading with elements := element :: reading.elements }
  | .tag (.opening opening) => some ⟨[], ⟨opening, none, reading.elements⟩ :: reading.blocks⟩
  | .tag .otherwise =>
    match reading.blocks with
    | ⟨opening, none, before⟩ :: blocks =>
      some ⟨[], ⟨opening, some reading.elements, before⟩ :: blocks⟩
    | _ => none
  | .tag (.closing name) =>
    match reading.blocks with
    | block :: blocks =>
      if block.opening.name = name then
        some ⟨block.close reading.elements :: block.before, blocks⟩
      else none
    | [] => none

/-- Reads a template. -/
def read? (source : String) : Option Template := do
  let pieces ← split? .outside source.toList
  let sequence ← sequence? true false pieces.first pieces.tagged
  let reading ← sequence.foldlM Reading.step ⟨[], []⟩
  if reading.blocks.isEmpty then some reading.elements.reverse else none

end ApiSurface.Template

namespace ApiSurface.TemplateLibrary

/-- Reads a template and puts it under a name. -/
def register (library : TemplateLibrary) (name source : String) :
    Except Fault TemplateLibrary :=
  match Template.read? source with
  | some template => .ok (library.add name template)
  | none => .error (.template s!"failed to register template '{name}'")

/-- Fills in the template with a name. -/
def render (library : TemplateLibrary) (name : String) (value : Json) : Except Fault String :=
  match library.fill? name value with
  | some text => .ok text
  | none => .error (.template s!"rendering '{name}' failed")

end ApiSurface.TemplateLibrary
