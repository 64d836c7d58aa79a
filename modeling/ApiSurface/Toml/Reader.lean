/-
This file reads settings files: statements on lines of their own, keys with dots, headers of tables,
and values. A value is a text in one of four notations, a whole number in one of four bases, a truth
value, an array or a table between braces. Any other notation is refused, since no setting takes it.
-/

import ApiSurface.Json.Token
import ApiSurface.Toml.Value

namespace ApiSurface.Toml

/-! ### Blanks -/

/-- Drops spaces and tabs. -/
def skipBlanks (input : List Char) : List Char :=
  input.dropWhile fun character => character == ' ' || character == '\t'

/-- Whether a character may stand in a comment or between the marks of a text on one line. -/
def isPlain (character : Char) : Bool :=
  character == '\t' || (0x20 ≤ character.toNat && character.toNat != 0x7F)

/-- What follows the end of a line, if the text is at one. -/
def lineEnd? : List Char → Option (List Char)
  | '\n' :: rest => some rest
  | '\r' :: '\n' :: rest => some rest
  | _ => none

/-- Drops a comment, which ends before the end of its line. -/
def skipComment (input : List Char) : List Char :=
  match input with
  | '#' :: rest => rest.dropWhile isPlain
  | _ => input

/-- Drops blanks, comments and line ends, at most `fuel` lines. -/
def skipLines : Nat → List Char → List Char
  | 0, input => input
  | fuel + 1, input =>
    let rest := skipComment (skipBlanks input)
    match lineEnd? rest with
    | some next => skipLines fuel next
    | none => rest

/-- Drops blanks, comments and line ends. -/
def skipSpace (input : List Char) : List Char :=
  skipLines (input.length + 1) input

/-! ### Texts -/

/-- The character with a code, if there is one. -/
def charOfCode? (code : Nat) : Option Char :=
  if code < 0xD800 || (0xDFFF < code && code < 0x110000) then some (Char.ofNat code) else none

/-- Reads a fixed number of digits of base sixteen as the code of a character. -/
def readCode (count : Nat) (input : List Char) : Option (Char × List Char) := do
  let digits := input.take count
  if digits.length < count then none
  let values ← digits.mapM Json.hexValue?
  let character ← charOfCode? (values.foldl (fun code value => code * 16 + value) 0)
  return (character, input.drop count)

/-- Reads what follows a backslash. -/
def readEscape : List Char → Option (Char × List Char)
  | 'b' :: rest => some ('\x08', rest)
  | 't' :: rest => some ('\t', rest)
  | 'n' :: rest => some ('\n', rest)
  | 'f' :: rest => some ('\x0c', rest)
  | 'r' :: rest => some ('\r', rest)
  | 'e' :: rest => some ('\x1b', rest)
  | '"' :: rest => some ('"', rest)
  | '\\' :: rest => some ('\\', rest)
  | 'x' :: rest => readCode 2 rest
  | 'u' :: rest => readCode 4 rest
  | 'U' :: rest => readCode 8 rest
  | _ => none

/-- Reads a text on one line up to its quotation mark, taking backslashes as escapes. -/
def readBasic : Nat → List Char → Option (List Char × List Char)
  | 0, _ => none
  | _ + 1, [] => none
  | _ + 1, '"' :: rest => some ([], rest)
  | fuel + 1, '\\' :: rest => do
    let (character, rest) ← readEscape rest
    let (read, rest) ← readBasic fuel rest
    return (character :: read, rest)
  | fuel + 1, character :: rest => do
    if !isPlain character then none
    let (read, rest) ← readBasic fuel rest
    return (character :: read, rest)

/-- Reads a text on one line up to its apostrophe; a backslash means itself. -/
def readLiteral (input : List Char) : Option (List Char × List Char) :=
  let (read, rest) := input.span fun character => character != '\x27' && isPlain character
  match rest with
  | '\x27' :: rest => some (read, rest)
  | _ => none

/-- The end of a text over several lines at a run of its marks: three end it, and up to two more before
them belong to it. -/
def closing? (mark : Char) (input : List Char) : Option (List Char × List Char) :=
  let run := (input.takeWhile (· == mark)).length
  if run < 3 then none
  else if run ≤ 5 then some (List.replicate (run - 3) mark, input.drop run)
  else some ([mark, mark], input.drop 5)

/-- Drops the blanks of a line that a backslash continues, and all blanks and line ends after it. -/
def continued? (input : List Char) : Option (List Char) := do
  let next ← lineEnd? (skipBlanks input)
  return next.dropWhile fun character =>
    character == ' ' || character == '\t' || character == '\n' || character == '\r'

/-- Reads a text over several lines up to three of its marks. -/
def readLong (mark : Char) : Nat → List Char → Option (List Char × List Char)
  | 0, _ => none
  | _ + 1, [] => none
  | fuel + 1, first :: rest =>
    match closing? mark (first :: rest), lineEnd? (first :: rest) with
    | some found, _ => some found
    | none, some rest => do
      let (read, rest) ← readLong mark fuel rest
      return ('\n' :: read, rest)
    | none, none =>
      if first = '\\' && mark = '"' then
        match continued? rest with
        | some rest => readLong mark fuel rest
        | none => do
          let (character, rest) ← readEscape rest
          let (read, rest) ← readLong mark fuel rest
          return (character :: read, rest)
      else if isPlain first then do
        let (read, rest) ← readLong mark fuel rest
        return (first :: read, rest)
      else none

/-- Drops the line end that directly follows the opening of a text over several lines. -/
def withoutFirstLineEnd (input : List Char) : List Char :=
  (lineEnd? input).getD input

/-- Reads a text in any notation. -/
def readText : List Char → Option (String × List Char)
  | '"' :: '"' :: '"' :: rest =>
    (readLong '"' (rest.length + 1) (withoutFirstLineEnd rest)).map fun (read, rest) =>
      (String.ofList read, rest)
  | '\x27' :: '\x27' :: '\x27' :: rest =>
    (readLong '\x27' (rest.length + 1) (withoutFirstLineEnd rest)).map fun (read, rest) =>
      (String.ofList read, rest)
  | '"' :: rest =>
    (readBasic (rest.length + 1) rest).map fun (read, rest) => (String.ofList read, rest)
  | '\x27' :: rest => (readLiteral rest).map fun (read, rest) => (String.ofList read, rest)
  | _ => none

/-! ### Keys -/

/-- Whether a character may stand in a key without marks. -/
def continuesKey (character : Char) : Bool :=
  Text.continuesName character || character == '-'

/-- Reads one part of a key. -/
def readKeyPart : List Char → Option (String × List Char)
  | '"' :: rest =>
    (readBasic (rest.length + 1) rest).map fun (read, rest) => (String.ofList read, rest)
  | '\x27' :: rest => (readLiteral rest).map fun (read, rest) => (String.ofList read, rest)
  | input =>
    let part := input.takeWhile continuesKey
    if part.isEmpty then none else some (String.ofList part, input.dropWhile continuesKey)

/-- Reads a key with dots and the blanks after it. -/
def readKey : Nat → List Char → Option (List String × List Char)
  | 0, _ => none
  | fuel + 1, input => do
    let (part, rest) ← readKeyPart (skipBlanks input)
    match skipBlanks rest with
    | '.' :: rest => do
      let (parts, rest) ← readKey fuel rest
      return (part :: parts, rest)
    | rest => return ([part], rest)

/-! ### Numbers -/

/-- The digits of a number in which each underscore stands between two digits. -/
def digitsOf? (isDigit : Char → Bool) (written : List Char) : Option (List Char) :=
  let groups := written.splitOnP (· == '_')
  if groups.all fun group => !group.isEmpty && group.all isDigit then some groups.flatten else none

/-- The value of digits in a base. -/
def valueOf? (base : Nat) (digits : List Char) : Option Nat :=
  digits.foldlM (fun value digit => (Json.hexValue? digit).map fun next => value * base + next) 0

/-- The whole number that a word stands for. -/
def integerOf? : List Char → Option Int
  | '0' :: 'x' :: digits => based 16 (fun digit => (Json.hexValue? digit).isSome) digits
  | '0' :: 'o' :: digits => based 8 (fun digit => '0' ≤ digit && digit ≤ '7') digits
  | '0' :: 'b' :: digits => based 2 (fun digit => digit == '0' || digit == '1') digits
  | '-' :: digits => (decimal digits).map fun value => -value
  | '+' :: digits => decimal digits
  | digits => decimal digits
where
  /-- Reads digits of a base. -/
  based (base : Nat) (isDigit : Char → Bool) (written : List Char) : Option Int := do
    return (← valueOf? base (← digitsOf? isDigit written))
  /-- Reads decimal digits, which start with a zero only if it is the only one. -/
  decimal (written : List Char) : Option Int :=
    if written.head? = some '0' && written != ['0'] then none
    else based 10 Text.isDigit written

/-- Whether a character may stand in a number or a truth value. -/
def continuesWord (character : Char) : Bool :=
  continuesKey character || character == '+' || character == '.' || character == ':'

/-- Reads a truth value or a whole number. -/
def readWord (input : List Char) : Option (Toml × List Char) :=
  let word := input.takeWhile continuesWord
  let rest := input.dropWhile continuesWord
  if word = "true".toList then some (.boolean true, rest)
  else if word = "false".toList then some (.boolean false, rest)
  else (integerOf? word).map fun value => (.integer value, rest)

/-! ### Values -/

mutual

/-- Reads a value. -/
def readValue : Nat → List Char → Option (Toml × List Char)
  | 0, _ => none
  | fuel + 1, input =>
    match input with
    | '[' :: rest => (readItems fuel (skipSpace rest)).map fun (items, rest) => (.array items, rest)
    | '\x7b' :: rest => (readEntries fuel [] (skipSpace rest)).map fun (entries, rest) =>
      (.table .inline entries, rest)
    | '"' :: _ => (readText input).map fun (value, rest) => (.text value, rest)
    | '\x27' :: _ => (readText input).map fun (value, rest) => (.text value, rest)
    | _ => readWord input

/-- Reads the items of an array up to its end; a comma may follow the last one. -/
def readItems : Nat → List Char → Option (List Toml × List Char)
  | 0, _ => none
  | fuel + 1, input =>
    match input with
    | ']' :: rest => some ([], rest)
    | _ => do
      let (item, rest) ← readValue fuel input
      match skipSpace rest with
      | ',' :: rest => do
        let (items, rest) ← readItems fuel (skipSpace rest)
        return (item :: items, rest)
      | ']' :: rest => return ([item], rest)
      | _ => none

/-- Reads the entries of a table between braces up to its end; a comma may follow the last one. -/
def readEntries : Nat → Entries → List Char → Option (Entries × List Char)
  | 0, _, _ => none
  | fuel + 1, entries, input =>
    match input with
    | '\x7d' :: rest => some (entries, rest)
    | _ => do
      let (path, rest) ← readKey fuel input
      match rest with
      | '=' :: rest => do
        let (value, rest) ← readValue fuel (skipBlanks rest)
        let entries ← assign entries value path
        match skipSpace rest with
        | ',' :: rest => readEntries fuel entries (skipSpace rest)
        | '\x7d' :: rest => return (entries, rest)
        | _ => none
      | _ => none

end

/-! ### Statements -/

/-- Reads a statement up to the blanks after it. -/
def readStatement (input : List Char) : Option (Statement × List Char) :=
  let fuel := input.length + 1
  match input with
  | '[' :: '[' :: rest => do
    let (path, rest) ← readKey fuel rest
    match rest with
    | ']' :: ']' :: rest => return (.arrayHeader path, rest)
    | _ => none
  | '[' :: rest => do
    let (path, rest) ← readKey fuel rest
    match rest with
    | ']' :: rest => return (.header path, rest)
    | _ => none
  | _ => do
    let (path, rest) ← readKey fuel input
    match rest with
    | '=' :: rest => do
      let (value, rest) ← readValue fuel (skipBlanks rest)
      return (.assign path value, rest)
    | _ => none

/-- Reads statements to the end of the text; nothing but a comment follows a statement on its line. -/
def readStatements : Nat → List Char → Option (List Statement)
  | 0, _ => none
  | fuel + 1, input =>
    match skipSpace input with
    | [] => some []
    | start => do
      let (statement, rest) ← readStatement start
      match skipComment (skipBlanks rest) with
      | [] => return [statement]
      | rest => do
        let rest ← lineEnd? rest
        return statement :: (← readStatements fuel rest)

/-- The entries of a settings file. A byte order mark at its start is passed over. -/
def parse? (text : String) : Option Entries := do
  let input := match text.toList with
    | '\uFEFF' :: rest => rest
    | input => input
  build [] [] (← readStatements (input.length + 1) input)

end ApiSurface.Toml
