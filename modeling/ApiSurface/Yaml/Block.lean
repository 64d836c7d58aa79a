/-
This file writes a YAML value in block form. It is used for the keys of a mapping that are collections
or have tags, where JSON needs a text. A scalar is written plain where that reads back as the same
text, between apostrophes where it would read as another kind, between quotation marks where it holds
characters that only escapes can show, and as a literal block where it has several lines.
-/

import ApiSurface.Text.Line
import ApiSurface.Yaml.Value

namespace ApiSurface.Yaml

/-! ### Numbers -/

/-- The text of a number. An exponent has no plus sign here. -/
def Number.text : Number → List Char
  | .int value => Decimal.intText value
  | .double value => value.text.filter (· != '+')
  | .infinity false => ".inf".toList
  | .infinity true => "-.inf".toList
  | .notANumber => ".nan".toList

/-! ### Notations of a text -/

/-- How a text is written. -/
inductive Notation where
  | plain
  | single
  | double
  | literal
  deriving DecidableEq, Repr, Inhabited

/-- The words that some readers take for a truth value or null. -/
def ambiguousWords : List String :=
  ["y", "yes", "n", "no", "on", "off", "true", "false", "null", "nil", "~", "nan"]

/-- Whether a reader could take a plain text for something else. -/
def isAmbiguous (text : String) : Bool :=
  match text.toList with
  | [] => true
  | first :: _ =>
    Text.isDigit first || first == '-' || first == '.' || first == '+' ||
      ambiguousWords.contains (Text.folded text)

/-- Whether a plain scalar with this text is the text again. -/
def readsAsText (text : String) : Bool :=
  match ofPlain? text with
  | some (.text _) => true
  | _ => false

/-- Whether a character can be shown as it is. -/
def isPrintable (character : Char) : Bool :=
  let code := character.toNat
  code == 0xA || (0x20 ≤ code && code ≤ 0x7E) || code == 0x85 ||
    (0xA0 ≤ code && code ≤ 0xFFFD && code != 0xFEFF) || 0x10000 ≤ code

/-- The characters that a plain scalar cannot start with. -/
def startingMarks : List Char :=
  ['#', ',', '[', ']', '\x7b', '\x7d', '&', '*', '!', '|', '>', '\x27', '"', '%', '@', '\x60']

/-- Whether the characters after the first can stand in a plain scalar of a block. -/
def restIsPlain : Char → List Char → Bool
  | _, [] => true
  | previous, character :: rest =>
    !(character == ':' && atGapOrEnd rest) && !(character == '#' && isGap previous) &&
      restIsPlain character rest

/-- Whether a text can be written plain in a block. -/
def allowsPlain (characters : List Char) : Bool :=
  match characters with
  | [] => false
  | first :: rest =>
    !(startingMarks.contains first) &&
      !((first == '-' || first == '?' || first == ':') && atGapOrEnd rest) &&
      !(isGap first) && !(characters.getLast?.any isGap) &&
      !(characters.any isBreak) && !("---".toList.isPrefixOf characters) &&
      !("...".toList.isPrefixOf characters) && restIsPlain first rest

/-- How a text is written. -/
def notationOf (text : String) : Notation :=
  let characters := text.toList
  if characters.any fun character => !isPrintable character then .double
  else if characters.contains '\n' then .literal
  else if readsAsText text && !isAmbiguous text && allowsPlain characters then .plain
  else if characters.any isBreak then .double
  else .single

/-- The characters that stand for one character between quotation marks. -/
def escapedCharacter (character : Char) : List Char :=
  match character with
  | '"' => ['\\', '"']
  | '\\' => ['\\', '\\']
  | '\n' => ['\\', 'n']
  | '\t' => ['\\', 't']
  | '\r' => ['\\', 'r']
  | '\x00' => ['\\', '0']
  | '\x07' => ['\\', 'a']
  | '\x08' => ['\\', 'b']
  | '\x0b' => ['\\', 'v']
  | '\x0c' => ['\\', 'f']
  | '\x1b' => ['\\', 'e']
  | '\u0085' => ['\\', 'N']
  | '\u2028' => ['\\', 'L']
  | '\u2029' => ['\\', 'P']
  | _ =>
    if isPrintable character then [character]
    else
      let digits := (Nat.toDigits 16 character.toNat).map Char.toUpper
      let padded (width : Nat) := List.replicate (width - digits.length) '0' ++ digits
      if digits.length ≤ 2 then '\\' :: 'x' :: padded 2
      else if digits.length ≤ 4 then '\\' :: 'u' :: padded 4
      else '\\' :: 'U' :: padded 8

/-- The lines of a scalar in block form. Lines after the first are already indented. -/
def textLines (indent : Nat) (text : String) : List (List Char) :=
  let characters := text.toList
  match notationOf text with
  | .plain => [characters]
  | .single =>
    ['\x27' :: Text.replaceAll ['\x27'] ['\x27', '\x27'] characters ++ ['\x27']]
  | .double => ['"' :: characters.flatMap escapedCharacter ++ ['"']]
  | .literal =>
    let lines := characters.splitOnP (· == '\n')
    let ends := (lines.reverse.takeWhile List.isEmpty).length
    let chomping := if ends = 0 then ['-'] else if ends = 1 then [] else ['+']
    let body := if ends = 0 then lines else lines.dropLast
    let hint :=
      if characters.head?.any fun first => isGap first || first == '\n' then ['2'] else []
    ('|' :: hint ++ chomping) ::
      body.map fun line => if line.isEmpty then [] else List.replicate indent ' ' ++ line

/-! ### Blocks -/

/-- Puts lines behind a mark on the first of them; the others are indented to the text after the
mark. -/
def behind (mark : List Char) : List (List Char) → List (List Char)
  | [] => [mark]
  | first :: rest => (mark ++ first) :: rest

/-- Indents the lines after the first by two. -/
def indentRest : List (List Char) → List (List Char)
  | [] => []
  | first :: rest => first :: rest.map fun line => if line.isEmpty then line else ' ' :: ' ' :: line

/-- Whether the value is written on the line of what it belongs to. -/
def isInline : Yaml → Bool
  | .sequence (_ :: _) => false
  | .mapping (_ :: _) => false
  | .tagged _ value => isInline value
  | _ => true

mutual

/-- The lines of a value. -/
def blockLines : Yaml → List (List Char)
  | .null => ["null".toList]
  | .bool true => ["true".toList]
  | .bool false => ["false".toList]
  | .number value => [value.text]
  | .text value => textLines 2 value
  | .sequence [] => [['[', ']']]
  | .sequence (first :: rest) => itemLines (first :: rest)
  | .mapping [] => [['\x7b', '\x7d']]
  | .mapping (first :: rest) => entryLines (first :: rest)
  | .tagged tag value =>
    let mark := '!' :: tag.toList
    if isInline value then behind (mark ++ [' ']) (blockLines value) else mark :: blockLines value

/-- The lines of items. -/
def itemLines : List Yaml → List (List Char)
  | [] => []
  | item :: rest => behind ['-', ' '] (indentRest (blockLines item)) ++ itemLines rest

/-- The lines of entries. A key that is not on one line gets a mark of its own. -/
def entryLines : List (Yaml × Yaml) → List (List Char)
  | [] => []
  | (key, value) :: rest =>
    let keyLines := blockLines key
    let valueLines := blockLines value
    let lines :=
      if isInline key && keyLines.length = 1 then
        let start := keyLines.headD [] ++ [':']
        match value with
        | .sequence (_ :: _) => start :: valueLines
        | .mapping (_ :: _) => start :: valueLines.map fun line => ' ' :: ' ' :: line
        | .tagged _ _ =>
          behind (start ++ [' ']) (if isInline value then valueLines else indentRest valueLines)
        | _ => behind (start ++ [' ']) valueLines
      else
        behind ['?', ' '] (indentRest keyLines) ++ behind [':', ' '] (indentRest valueLines)
    lines ++ entryLines rest

end

/-- A value in block form, without blanks around it. -/
def blockText (value : Yaml) : String :=
  String.ofList (Text.trim (Text.joinLines (blockLines value)))

end ApiSurface.Yaml
