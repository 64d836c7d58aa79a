/-
This file cuts a YAML text into tokens. Outside brackets the layout carries the structure, so tokens
for the start and the end of block collections are made from the columns: a collection starts at the
first item or key in a column deeper than those before, and ends at the first token in a lesser one.

Whether a scalar is a key shows only at the colon after it. The place of every token that could start
a key is therefore kept, one for each level of brackets; the colon then puts the key token, and if need
be the start of a mapping, in front of that place. A key does not span lines and starts at most 1024
characters before its colon.
-/

import ApiSurface.Yaml.ScalarText

namespace ApiSurface.Yaml

/-- A token of a YAML text. -/
inductive Token where
  | version (major minor : Nat)
  | tagDirective (handle start : String)
  | documentStart
  | documentEnd
  | blockSequence
  | blockMapping
  | blockEnd
  | flowSequence
  | flowSequenceEnd
  | flowMapping
  | flowMappingEnd
  | blockEntry
  | flowEntry
  | key
  | value
  | alias (name : String)
  | anchor (name : String)
  | tag (handle rest : String)
  | scalar (text : String) (plain : Bool)
  deriving DecidableEq, Repr, Inhabited

/-- The place of a token that could start a key. -/
structure KeyPlace where
  /-- Whether the token must start a key, because it stands where only keys stand. -/
  required : Bool
  /-- How many tokens come before it. -/
  number : Nat
  /-- Where it starts. -/
  index : Nat
  /-- The line in which it starts. -/
  line : Nat
  /-- The column in which it starts. -/
  column : Nat
  deriving Repr, Inhabited

/-- How far the cutting has come. -/
structure Layout where
  /-- The place in the text. -/
  cursor : Cursor
  /-- The tokens so far, the last one first. -/
  tokens : List Token
  /-- The number of tokens so far. -/
  count : Nat
  /-- The column of the innermost open block collection, or -1. -/
  indent : Int
  /-- The columns of the block collections around it, the innermost first. -/
  outer : List Int
  /-- Whether a key may start here. -/
  keyAllowed : Bool
  /-- The places that could start a key, one for each open bracket and one for the blocks outside all
  brackets, the innermost first. -/
  keys : List (Option KeyPlace)
  deriving Repr, Inhabited

namespace Layout

/-- The start of a text. -/
def start (text : List Char) : Layout :=
  ⟨Cursor.start text, [], 0, -1, [], true, [none]⟩

/-- Whether brackets are open. -/
def inFlow (layout : Layout) : Bool := layout.keys.length > 1

/-- Adds a token. -/
def push (layout : Layout) (token : Token) : Layout :=
  { layout with tokens := token :: layout.tokens, count := layout.count + 1 }

/-- Puts a token in front of the token with the given number. -/
def insert (layout : Layout) (number : Nat) (token : Token) : Layout :=
  let (after, before) := layout.tokens.splitAt (layout.count - number)
  { layout with tokens := after ++ token :: before, count := layout.count + 1 }

/-! ### Keys -/

/-- Forgets the place that could start a key at this level, unless it must. -/
def dropKey (layout : Layout) : Option Layout :=
  match layout.keys with
  | some place :: rest => if place.required then none else some { layout with keys := none :: rest }
  | _ => some layout

/-- Keeps this place as one that could start a key, if keys may start here. -/
def saveKey (layout : Layout) : Option Layout :=
  if layout.keyAllowed then do
    let layout ← layout.dropKey
    let cursor := layout.cursor
    let required := !layout.inFlow && layout.indent == (cursor.column : Int)
    let place : KeyPlace := ⟨required, layout.count, cursor.index, cursor.line, cursor.column⟩
    return { layout with keys := some place :: layout.keys.drop 1 }
  else some layout

/-- Whether a place is too far back to start a key that ends here. -/
def isStale (cursor : Cursor) (place : KeyPlace) : Bool :=
  place.line < cursor.line || place.index + 1024 < cursor.index

/-- Forgets the places that are too far back; fails if one of them must start a key. -/
def dropStaleKeys (layout : Layout) : Option Layout := do
  let keys ← layout.keys.mapM fun key =>
    match key with
    | some place =>
      if isStale layout.cursor place then (if place.required then none else some none)
      else some (some place)
    | none => some none
  return { layout with keys }

/-! ### Columns -/

/-- Opens a block collection in a column if it is deeper than the open ones. The token goes in front of
the token with the given number. -/
def openBlock (layout : Layout) (column : Int) (number : Nat) (token : Token) : Layout :=
  if !layout.inFlow && layout.indent < column then
    { layout.insert number token with
      indent := column
      outer := layout.indent :: layout.outer }
  else layout

/-- Closes the block collections in columns deeper than the given one. -/
def closeBlocks (column : Int) : List Int → Layout → Layout
  | [], layout => layout
  | next :: rest, layout =>
    if column < layout.indent then
      closeBlocks column rest { layout.push .blockEnd with indent := next, outer := rest }
    else layout

/-- Closes block collections outside brackets. -/
def unindent (layout : Layout) (column : Int) : Layout :=
  if layout.inFlow then layout else closeBlocks column layout.outer layout

/-! ### Blanks -/

/-- Passes over blanks, comments and line ends. A tab may only stand where no key can start, and a line
may start with a byte order mark. -/
def skipSpace : Nat → Layout → Layout
  | 0, layout => layout
  | fuel + 1, layout =>
    let cursor := layout.cursor
    let cursor := if cursor.column == 0 && cursor.isAt '\uFEFF' then cursor.skip else cursor
    let tabs := layout.inFlow || !layout.keyAllowed
    let cursor := cursor.skipWhile fun next => next == ' ' || (tabs && next == '\t')
    let cursor := if cursor.isAt '#' then cursor.skipWhile fun next => !isBreak next else cursor
    if cursor.isAtAny isBreak then
      skipSpace fuel
        { layout with
          cursor := cursor.skipBreak
          keyAllowed := layout.keyAllowed || !layout.inFlow }
    else { layout with cursor }

/-! ### Marks -/

/-- Passes over a mark of one character and adds its token. -/
def takeMark (layout : Layout) (token : Token) : Layout :=
  ({ layout with cursor := layout.cursor.skip }).push token

/-- Takes an opening bracket. -/
def takeOpening (layout : Layout) (token : Token) : Option Layout := do
  let layout ← layout.saveKey
  return ({ layout with keys := none :: layout.keys, keyAllowed := true }).takeMark token

/-- Takes a closing bracket. -/
def takeClosing (layout : Layout) (token : Token) : Option Layout := do
  let layout ← layout.dropKey
  let keys := if layout.inFlow then layout.keys.drop 1 else layout.keys
  return ({ layout with keys, keyAllowed := false }).takeMark token

/-- Takes a comma between brackets. -/
def takeComma (layout : Layout) : Option Layout := do
  let layout ← layout.dropKey
  return ({ layout with keyAllowed := true }).takeMark .flowEntry

/-- Takes the mark of an item of a block sequence. -/
def takeEntry (layout : Layout) : Option Layout := do
  if !layout.inFlow && !layout.keyAllowed then none
  let layout := layout.openBlock layout.cursor.column layout.count .blockSequence
  let layout ← layout.dropKey
  return ({ layout with keyAllowed := true }).takeMark .blockEntry

/-- Takes the mark of a key. -/
def takeKey (layout : Layout) : Option Layout := do
  if !layout.inFlow && !layout.keyAllowed then none
  let layout := layout.openBlock layout.cursor.column layout.count .blockMapping
  let layout ← layout.dropKey
  return ({ layout with keyAllowed := !layout.inFlow }).takeMark .key

/-- Takes the colon before a value. -/
def takeValue (layout : Layout) : Option Layout :=
  match layout.keys with
  | some place :: rest =>
    let layout := layout.insert place.number .key
    let layout := layout.openBlock place.column place.number .blockMapping
    some (({ layout with keys := none :: rest, keyAllowed := false }).takeMark .value)
  | _ =>
    if !layout.inFlow && !layout.keyAllowed then none
    else
      let layout := layout.openBlock layout.cursor.column layout.count .blockMapping
      some (({ layout with keyAllowed := !layout.inFlow }).takeMark .value)

/-- Takes three marks that start or end a document. -/
def takeDocumentMark (layout : Layout) (token : Token) : Option Layout := do
  let layout ← (layout.unindent (-1)).dropKey
  return ({ layout with keyAllowed := false, cursor := layout.cursor.skipMany 3 }).push token

/-! ### Anchors and tags -/

/-- Whether the name of an anchor may end before this text. -/
def endsAnchor (rest : List Char) : Bool :=
  atGapOrEnd rest ||
    match rest with
    | next :: _ => ['?', ':', ',', ']', '\x7d', '%', '@', '\x60'].contains next
    | [] => true

/-- Takes an anchor or an alias. -/
def takeAnchor (layout : Layout) (token : String → Token) : Option Layout := do
  let layout ← layout.saveKey
  let cursor := layout.cursor.skip
  let name := cursor.rest.takeWhile isWordCharacter
  let cursor := cursor.skipMany name.length
  if name.isEmpty || !endsAnchor cursor.rest then none
  return ({ layout with keyAllowed := false, cursor }).push (token (String.ofList name))

/-- Whether a character may stand in a tag; the marks of flow collections may only in some places. -/
def isTagCharacter (marks : Bool) (character : Char) : Bool :=
  isWordCharacter character ||
    [';', '/', '?', ':', '@', '&', '=', '+', '$', '.', '%', '!', '~', '*', '\x27', '(', ')'].contains
      character ||
    (marks && [',', '[', ']'].contains character)

/-- The number of bytes of a character whose first byte is given. -/
def widthOfLead? (byte : Nat) : Option Nat :=
  if byte < 0x80 then some 1
  else if 0xC0 ≤ byte && byte < 0xE0 then some 2
  else if 0xE0 ≤ byte && byte < 0xF0 then some 3
  else if 0xF0 ≤ byte && byte < 0xF8 then some 4
  else none

/-- Reads bytes that are each written as a percent sign and two digits of base sixteen. -/
def readBytes : Nat → List Char → Option (List Nat × List Char)
  | 0, rest => some ([], rest)
  | count + 1, '%' :: high :: low :: rest => do
    let byte := (← Json.hexValue? high) * 16 + (← Json.hexValue? low)
    let (bytes, rest) ← readBytes count rest
    return (byte :: bytes, rest)
  | _, _ => none

/-- The character that bytes stand for. -/
def charOfBytes? (bytes : List Nat) : Option Char :=
  (String.fromUTF8? (ByteArray.mk (bytes.map Nat.toUInt8).toArray)).bind fun text =>
    match text.toList with
    | [character] => some character
    | _ => none

/-- Replaces the escapes in a tag by the characters they stand for. -/
def unescapeTag : Nat → List Char → Option (List Char)
  | _, [] => some []
  | 0, _ => none
  | fuel + 1, first :: rest =>
    if first = '%' then do
      let ([lead], _) ← readBytes 1 (first :: rest) | none
      let (bytes, rest) ← readBytes (← widthOfLead? lead) (first :: rest)
      return (← charOfBytes? bytes) :: (← unescapeTag fuel rest)
    else (unescapeTag fuel rest).map (first :: ·)

/-- Reads the characters of a tag. -/
def readTagText (marks : Bool) (cursor : Cursor) : Option (List Char × Cursor) := do
  let written := cursor.rest.takeWhile (isTagCharacter marks)
  return (← unescapeTag (written.length + 1) written, cursor.skipMany written.length)

/-- Reads an exclamation mark, the word after it and the exclamation mark after that, if there is
one. -/
def readHandle (cursor : Cursor) : Option (List Char × Cursor) :=
  if cursor.isAt '!' then
    let word := cursor.skip.rest.takeWhile isWordCharacter
    let after := cursor.skip.skipMany word.length
    if after.isAt '!' then some ('!' :: word ++ ['!'], after.skip) else some ('!' :: word, after)
  else none

/-- Reads a tag: its handle and the rest of it. -/
def readTag (cursor : Cursor) : Option (String × String × Cursor) :=
  if cursor.skip.isAt '<' then do
    let (text, cursor) ← readTagText true cursor.skip.skip
    if text.isEmpty || !cursor.isAt '>' then none
    return ("", String.ofList text, cursor.skip)
  else do
    let (handle, after) ← readHandle cursor
    if handle.length > 1 && handle.getLast? == some '!' then
      let (text, after) ← readTagText false after
      if text.isEmpty then none
      return (String.ofList handle, String.ofList text, after)
    else
      let (text, after) ← readTagText false after
      let text := handle.drop 1 ++ text
      if text.isEmpty then return ("", "!", after)
      return ("!", String.ofList text, after)

/-- Takes a tag. -/
def takeTag (layout : Layout) : Option Layout := do
  let layout ← layout.saveKey
  let (handle, rest, cursor) ← readTag layout.cursor
  if !(layout.inFlow && cursor.isAt ',') && !atGapOrEnd cursor.rest then none
  return ({ layout with keyAllowed := false, cursor }).push (.tag handle rest)

/-! ### Scalars -/

/-- Takes a scalar between quotation marks. -/
def takeQuoted (layout : Layout) (mark : Char) : Option Layout := do
  let layout ← layout.saveKey
  let (text, cursor) ← readQuoted mark (layout.cursor.rest.length + 1) [] layout.cursor.skip
  return ({ layout with keyAllowed := false, cursor }).push (.scalar (String.ofList text) false)

/-- Takes a plain scalar. -/
def takePlain (layout : Layout) : Option Layout := do
  let layout ← layout.saveKey
  let (text, broken, cursor) ←
    readPlain layout.inFlow (layout.indent + 1) (layout.cursor.rest.length + 1) [] Gap.none
      layout.cursor
  return ({ layout with keyAllowed := broken, cursor }).push (.scalar (String.ofList text) true)

/-- Takes a block scalar. -/
def takeBlock (layout : Layout) (literal : Bool) : Option Layout := do
  let layout ← layout.dropKey
  let (text, cursor) ← readBlock literal layout.indent layout.cursor.skip
  return ({ layout with keyAllowed := true, cursor }).push (.scalar (String.ofList text) false)

/-- Whether a plain scalar may start with this text. -/
def startsPlain (flow : Bool) : List Char → Bool
  | [] => false
  | first :: rest =>
    if first == '-' then !(rest.head?.any isGap)
    else if first == '?' || first == ':' then !flow && !atGapOrEnd rest
    else
      !(isGap first || isBreak first ||
        [',', '[', ']', '\x7b', '\x7d', '#', '&', '*', '!', '|', '>', '\x27', '"', '%', '@',
          '\x60'].contains first)

/-! ### Directives -/

/-- Reads a number of at most nine digits. -/
def readVersionNumber (cursor : Cursor) : Option (Nat × Cursor) :=
  let digits := cursor.rest.takeWhile Text.isDigit
  if digits.isEmpty || digits.length > 9 then none
  else some (Json.natOfDigits digits, cursor.skipMany digits.length)

/-- Reads the version in a directive. -/
def readVersion (cursor : Cursor) : Option (Token × Cursor) := do
  let (major, cursor) ← readVersionNumber (cursor.skipWhile isGap)
  if !cursor.isAt '.' then none
  let (minor, cursor) ← readVersionNumber cursor.skip
  return (.version major minor, cursor)

/-- Reads the handle and the text that a directive gives it. -/
def readTagDirective (cursor : Cursor) : Option (Token × Cursor) := do
  let (handle, cursor) ← readHandle (cursor.skipWhile isGap)
  if handle != ['!'] && handle.getLast? != some '!' then none
  if !cursor.isAtAny isGap then none
  let (text, cursor) ← readTagText true (cursor.skipWhile isGap)
  if text.isEmpty || !atGapOrEnd cursor.rest then none
  return (.tagDirective (String.ofList handle) (String.ofList text), cursor)

/-- Takes a directive. -/
def takeDirective (layout : Layout) : Option Layout := do
  let layout ← (layout.unindent (-1)).dropKey
  let name := layout.cursor.skip.rest.takeWhile isWordCharacter
  let cursor := layout.cursor.skip.skipMany name.length
  if name.isEmpty || !atGapOrEnd cursor.rest then none
  let (token, cursor) ←
    if name = "YAML".toList then readVersion cursor
    else if name = "TAG".toList then readTagDirective cursor
    else none
  return ({ layout with keyAllowed := false, cursor := ← cursor.endOfLine? }).push token

/-! ### Tokens -/

/-- Takes the token that starts here. -/
def takeToken (layout : Layout) (first : Char) (rest : List Char) : Option Layout :=
  let cursor := layout.cursor
  let flow := layout.inFlow
  if cursor.column == 0 && first == '%' then layout.takeDirective
  else if cursor.atDocumentMark '-' then layout.takeDocumentMark .documentStart
  else if cursor.atDocumentMark '.' then layout.takeDocumentMark .documentEnd
  else
    match first with
    | '[' => layout.takeOpening .flowSequence
    | '\x7b' => layout.takeOpening .flowMapping
    | ']' => layout.takeClosing .flowSequenceEnd
    | '\x7d' => layout.takeClosing .flowMappingEnd
    | ',' => layout.takeComma
    | '*' => layout.takeAnchor .alias
    | '&' => layout.takeAnchor .anchor
    | '!' => layout.takeTag
    | '\x27' => layout.takeQuoted '\x27'
    | '"' => layout.takeQuoted '"'
    | _ =>
      if first == '-' && atGapOrEnd rest then layout.takeEntry
      else if first == '?' && (flow || atGapOrEnd rest) then layout.takeKey
      else if first == ':' && (flow || atGapOrEnd rest) then layout.takeValue
      else if first == '|' && !flow then layout.takeBlock true
      else if first == '>' && !flow then layout.takeBlock false
      else if startsPlain flow (first :: rest) then layout.takePlain
      else none

/-- Takes tokens to the end of the text. -/
def run : Nat → Layout → Option Layout
  | 0, _ => none
  | fuel + 1, layout => do
    let layout := layout.skipSpace (layout.cursor.rest.length + 1)
    let layout ← layout.dropStaleKeys
    let layout := layout.unindent layout.cursor.column
    match layout.cursor.rest with
    | [] => (layout.unindent (-1)).dropKey
    | first :: rest => run fuel (← layout.takeToken first rest)

end Layout

/-- The tokens of a YAML text. Every token but those made from columns takes at least one character. -/
def tokens? (text : List Char) : Option (List Token) :=
  if text.all isAllowed then
    ((Layout.start text).run (text.length + 1)).map fun layout => layout.tokens.reverse
  else none

end ApiSurface.Yaml
