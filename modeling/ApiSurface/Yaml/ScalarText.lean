/-
This file reads the three notations of a scalar: plain, between quotation marks and as a block. In the
first two a line end together with the blanks around it is one space, and further line ends after it
are kept; a block keeps its lines or folds them in the same way, and an indicator says what becomes of
the line ends after its last line.
-/

import ApiSurface.Yaml.Cursor

namespace ApiSurface.Yaml

/-! ### Gaps -/

/-- The blanks and line ends between two pieces of a scalar. -/
structure Gap where
  /-- The blanks before any line end. -/
  blanks : List Char
  /-- Whether there is a line end. -/
  broken : Bool
  /-- The first line end. -/
  leading : List Char
  /-- The further line ends. -/
  trailing : List Char
  deriving Repr, Inhabited

/-- No gap. -/
def Gap.none : Gap := ⟨[], false, [], []⟩

/-- What a gap between two pieces stands for. -/
def Gap.folded (gap : Gap) : List Char :=
  if !gap.broken then gap.blanks
  else if gap.leading = ['\n'] then (if gap.trailing.isEmpty then [' '] else gap.trailing)
  else gap.leading ++ gap.trailing

/-- Reads a gap. Where lines must be indented, a tab before that column is refused. -/
def readGap (indent : Option Int) : Nat → Gap → Cursor → Option (Gap × Cursor)
  | 0, _, _ => none
  | fuel + 1, gap, cursor =>
    match cursor.rest with
    | [] => some (gap, cursor)
    | first :: _ =>
      if isGap first then
        if !gap.broken then
          readGap indent fuel { gap with blanks := gap.blanks ++ [first] } cursor.skip
        else if first == '\t' && indent.any (fun least => (cursor.column : Int) < least) then none
        else readGap indent fuel gap cursor.skip
      else if isBreak first then
        let (text, next) := cursor.takeBreak
        if gap.broken then
          readGap indent fuel { gap with trailing := gap.trailing ++ text } next
        else readGap indent fuel { gap with blanks := [], broken := true, leading := text } next
      else some (gap, cursor)

/-! ### Plain scalars -/

/-- Whether a character separates the items of a collection between brackets. -/
def isFlowMark (character : Char) : Bool :=
  character == ',' || character == '[' || character == ']' || character == '\x7b' ||
    character == '\x7d'

/-- Whether a plain scalar ends before this text: at a colon with a gap after it, and between brackets
at the marks that separate items. -/
def endsPlain (flow : Bool) : List Char → Bool
  | [] => true
  | first :: rest => (first == ':' && atGapOrEnd rest) || (flow && isFlowMark first)

/-- Whether a colon stands where it may not: between brackets directly before a mark. -/
def misplacedColon (flow : Bool) : List Char → Bool
  | ':' :: next :: _ => flow && (isFlowMark next || next == '?')
  | _ => false

/-- Reads the characters up to a gap or the end of a plain scalar. -/
def readPlainPiece (flow : Bool) : Nat → List Char → Cursor → Option (List Char × Cursor)
  | 0, _, _ => none
  | fuel + 1, read, cursor =>
    match cursor.rest with
    | [] => some (read.reverse, cursor)
    | first :: _ =>
      if isGap first || isBreak first then some (read.reverse, cursor)
      else if misplacedColon flow cursor.rest then none
      else if endsPlain flow cursor.rest then some (read.reverse, cursor)
      else readPlainPiece flow fuel (first :: read) cursor.skip

/-- Reads the pieces of a plain scalar; lines after the first are indented at least to `indent`. Says
as well whether line ends were passed over after the last piece. -/
def readPlain (flow : Bool) (indent : Int) :
    Nat → List Char → Gap → Cursor → Option (List Char × Bool × Cursor)
  | 0, _, _, _ => none
  | fuel + 1, read, gap, cursor => do
    if cursor.atDocumentEdge || cursor.isAt '#' then return (read, gap.broken, cursor)
    let limit := cursor.rest.length + 1
    let (piece, cursor) ← readPlainPiece flow limit [] cursor
    let (read, gap) := if piece.isEmpty then (read, gap) else (read ++ gap.folded ++ piece, Gap.none)
    if !cursor.isAtAny (fun next => isGap next || isBreak next) then
      return (read, gap.broken, cursor)
    let (gap, cursor) ← readGap (some indent) limit gap cursor
    if !flow && (cursor.column : Int) < indent then return (read, gap.broken, cursor)
    readPlain flow indent fuel read gap cursor

/-! ### Quoted scalars -/

/-- What a backslash and this character stand for. -/
def simpleEscape? : Char → Option Char
  | '0' => some '\x00'
  | 'a' => some '\x07'
  | 'b' => some '\x08'
  | 't' | '\t' => some '\t'
  | 'n' => some '\n'
  | 'v' => some '\x0b'
  | 'f' => some '\x0c'
  | 'r' => some '\r'
  | 'e' => some '\x1b'
  | ' ' => some ' '
  | '"' => some '"'
  | '/' => some '/'
  | '\\' => some '\\'
  | 'N' => some '\u0085'
  | '_' => some '\u00a0'
  | 'L' => some '\u2028'
  | 'P' => some '\u2029'
  | _ => none

/-- How many digits of base sixteen follow a backslash and this character. -/
def codeLength? : Char → Option Nat
  | 'x' => some 2
  | 'u' => some 4
  | 'U' => some 8
  | _ => none

/-- Reads an escape after its backslash. -/
def readEscape (cursor : Cursor) : Option (Char × Cursor) := do
  let letter ← cursor.peek?
  match codeLength? letter with
  | none => return (← simpleEscape? letter, cursor.skip)
  | some count =>
    let digits := (cursor.rest.drop 1).take count
    if digits.length < count then none
    let values ← digits.mapM Json.hexValue?
    let code := values.foldl (fun code value => code * 16 + value) 0
    if (0xD800 ≤ code && code ≤ 0xDFFF) || 0x10FFFF < code then none
    return (Char.ofNat code, cursor.skipMany (count + 1))

/-- Reads characters up to a gap or the closing mark. Says as well whether a backslash at the end of the
line was passed over. -/
def readQuotedPiece (mark : Char) : Nat → List Char → Cursor → Option (List Char × Bool × Cursor)
  | 0, _, _ => none
  | fuel + 1, read, cursor =>
    match cursor.rest with
    | [] => some (read.reverse, false, cursor)
    | first :: rest =>
      if isGap first || isBreak first then some (read.reverse, false, cursor)
      else if first == mark then
        if mark == '\x27' && rest.head? == some '\x27' then
          readQuotedPiece mark fuel ('\x27' :: read) cursor.skip.skip
        else some (read.reverse, false, cursor)
      else if first == '\\' && mark == '"' then
        if cursor.skip.isAtAny isBreak then some (read.reverse, true, cursor.skip.skipBreak)
        else
          match readEscape cursor.skip with
          | some (character, next) => readQuotedPiece mark fuel (character :: read) next
          | none => none
      else readQuotedPiece mark fuel (first :: read) cursor.skip

/-- Reads a scalar up to its closing mark. -/
def readQuoted (mark : Char) : Nat → List Char → Cursor → Option (List Char × Cursor)
  | 0, _, _ => none
  | fuel + 1, read, cursor => do
    if cursor.atDocumentEdge || cursor.rest.isEmpty then none
    let limit := cursor.rest.length + 1
    let (piece, continued, cursor) ← readQuotedPiece mark limit [] cursor
    let read := read ++ piece
    if cursor.isAt mark then return (read, cursor.skip)
    let (gap, cursor) ← readGap none limit { Gap.none with broken := continued } cursor
    readQuoted mark fuel (read ++ gap.folded) cursor

/-! ### Block scalars -/

/-- What becomes of the line ends after the last line of a block. -/
inductive Chomping where
  /-- All are dropped. -/
  | strip
  /-- One is kept. -/
  | clip
  /-- All are kept. -/
  | keep
  deriving DecidableEq, Repr, Inhabited

/-- Reads the indicator of chomping, if there is one. -/
def readChomping (cursor : Cursor) : Option (Chomping × Cursor) :=
  if cursor.isAt '+' then some (.keep, cursor.skip)
  else if cursor.isAt '-' then some (.strip, cursor.skip)
  else none

/-- Reads the indicator of indentation, if there is one. -/
def readIncrement (cursor : Cursor) : Option (Nat × Cursor) :=
  match cursor.peek? with
  | some digit =>
    if Text.isDigit digit then some (digit.toNat - '0'.toNat, cursor.skip) else none
  | none => none

/-- Reads the two indicators of a block in either order. An increment of zero is refused. -/
def readIndicators (cursor : Cursor) : Option (Chomping × Option Nat × Cursor) := do
  let (chomping, increment, cursor) :=
    match readChomping cursor with
    | some (chomping, cursor) =>
      match readIncrement cursor with
      | some (increment, cursor) => (chomping, some increment, cursor)
      | none => (chomping, none, cursor)
    | none =>
      match readIncrement cursor with
      | some (increment, cursor) =>
        match readChomping cursor with
        | some (chomping, cursor) => (chomping, some increment, cursor)
        | none => (.clip, some increment, cursor)
      | none => (.clip, none, cursor)
  if increment = some 0 then none
  return (chomping, increment, cursor)

/-- Reads the empty lines before a line of a block and the indentation of that line. While the
indentation of the block is not known, all spaces count; then it is the deepest one met, or
`least` if that is more. -/
def readBlockBreaks (least : Nat) (indent : Option Nat) :
    Nat → Nat → List Char → Cursor → Option (Nat × List Char × Cursor)
  | 0, _, _, _ => none
  | fuel + 1, deepest, breaks, cursor =>
    let within (column : Nat) : Bool := indent.all fun limit => column < limit
    let spaces := (cursor.rest.takeWhile (· == ' ')).length
    let taken := match indent with
      | none => spaces
      | some limit => min spaces (limit - cursor.column)
    let cursor := cursor.skipMany taken
    let deepest := max deepest cursor.column
    if within cursor.column && cursor.isAt '\t' then none
    else if cursor.isAtAny isBreak then
      let (text, next) := cursor.takeBreak
      readBlockBreaks least indent fuel deepest (breaks ++ text) next
    else some (indent.getD (max deepest least), breaks, cursor)

/-- Reads the lines of a block. `leading` is the line end before the next line, `trailing` the empty
lines after it, and `wasBlank` says whether the last line started with a gap. -/
def readBlockLines (literal : Bool) (indent : Nat) :
    Nat → List Char → List Char → List Char → Bool → Cursor →
      Option (List Char × List Char × List Char × Cursor)
  | 0, _, _, _, _, _ => none
  | fuel + 1, read, leading, trailing, wasBlank, cursor =>
    if cursor.column = indent && !cursor.rest.isEmpty then
      let isBlank := cursor.isAtAny isGap
      let joint :=
        if !literal && leading = ['\n'] && !wasBlank && !isBlank then
          if trailing.isEmpty then [' '] else []
        else leading
      let text := cursor.rest.takeWhile fun character => !isBreak character
      let (leading, next) := (cursor.skipMany text.length).takeBreak
      match readBlockBreaks indent (some indent) (cursor.rest.length + 1) 0 [] next with
      | some (_, breaks, next) =>
        readBlockLines literal indent fuel (read ++ joint ++ trailing ++ text) leading breaks isBlank
          next
      | none => none
    else some (read, leading, trailing, cursor)

/-- Reads a block after its mark; `parent` is the indentation of what holds it. -/
def readBlock (literal : Bool) (parent : Int) (cursor : Cursor) : Option (List Char × Cursor) := do
  let (chomping, increment, cursor) ← readIndicators cursor
  let cursor ← cursor.endOfLine?
  let fuel := cursor.rest.length + 1
  let outer := parent.toNat
  let fixed := increment.map (· + outer)
  let least := max (parent + 1).toNat 1
  let (indent, breaks, cursor) ← readBlockBreaks least fixed fuel 0 [] cursor
  let (read, leading, trailing, cursor) ←
    readBlockLines literal indent fuel [] [] breaks false cursor
  let ending := match chomping with
    | .strip => []
    | .clip => leading
    | .keep => leading ++ trailing
  return (read ++ ending, cursor)

end ApiSurface.Yaml
