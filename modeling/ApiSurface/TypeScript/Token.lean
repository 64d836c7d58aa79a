/-
This file cuts a TypeScript source into tokens. A machine takes one character after the other and looks
at most one character ahead, so every source has tokens, even one that breaks off in the middle. A
token knows the lines on which it starts and ends and whether a comment comes before it; comments and
blanks are no tokens. A template is a sequence of tokens: its texts, and between them its holes, each
in braces.
-/

import ApiSurface.Text.Blank
import ApiSurface.Text.Case

namespace ApiSurface.TypeScript

/-- What a token is. -/
inductive TokenKind where
  /-- An identifier or keyword. -/
  | word
  /-- A number. -/
  | number
  /-- A text in quotation marks. -/
  | quoted
  /-- A text of a template, with the mark at its start or end. -/
  | template
  /-- A regular expression. -/
  | regex
  /-- An operator, bracket or other mark. -/
  | mark
  deriving DecidableEq, Repr, Inhabited

/-- A token of a source. -/
structure Token where
  /-- What it is. -/
  kind : TokenKind
  /-- Its text. -/
  text : String
  /-- How many characters come before it. -/
  start : Nat
  /-- The line on which it starts. -/
  row : Nat
  /-- The line on which it ends. -/
  lastRow : Nat
  /-- Whether there is a comment between it and the token before. -/
  commented : Bool
  deriving DecidableEq, Repr, Inhabited

/-- What the machine is in the middle of. -/
inductive Lexing where
  /-- Between tokens. -/
  | code
  /-- In a comment that ends with the line. -/
  | lineComment
  /-- At the asterisk that opens a comment. -/
  | commentOpening
  /-- In a comment that ends with an asterisk and a slash. -/
  | comment
  /-- At the slash that closes such a comment. -/
  | commentClosing
  /-- In a word. -/
  | word
  /-- In a number. -/
  | number
  /-- In an operator. -/
  | mark
  /-- In a text in quotation marks, perhaps after a backslash. -/
  | quoted (quote : Char) (escaped : Bool)
  /-- In a text of a template, perhaps after a backslash. -/
  | template (escaped : Bool)
  /-- At the brace that opens a hole of a template. -/
  | hole
  /-- In a regular expression, perhaps in a set of characters, perhaps after a backslash. What turns
  out to have no end on its line is only a mark. -/
  | regex (inSet escaped : Bool)
  /-- In the flags after a regular expression. -/
  | flags
  deriving DecidableEq, Repr, Inhabited

/-- The machine. -/
structure Lexer where
  /-- What it is in the middle of. -/
  lexing : Lexing
  /-- The characters of the open token in reverse order. -/
  pending : List Char
  /-- How many characters come before the open token. -/
  start : Nat
  /-- The line on which the open token starts. -/
  startRow : Nat
  /-- How many characters were taken. -/
  offset : Nat
  /-- How many line feeds were taken. -/
  row : Nat
  /-- Whether there was a comment since the last token. -/
  commented : Bool
  /-- For each hole of a template that is open, how many braces are open in it. -/
  holes : List Nat
  /-- The tokens in reverse order. -/
  tokens : List Token
  deriving Repr, Inhabited

namespace Lexer

/-- The machine before the first character. -/
def initial : Lexer where
  lexing := .code
  pending := []
  start := 0
  startRow := 0
  offset := 0
  row := 0
  commented := false
  holes := []
  tokens := []

/-! ### Characters -/

/-- Whether a character is blank in a source. -/
def isSpace (character : Char) : Bool :=
  Text.isBlank character || character == '\ufeff' || character == '\u2060' ||
    character == '\u200b'

/-- Whether a word may start with a character. -/
def startsWord (character : Char) : Bool :=
  Text.startsName character || character == '$' || character == '#' || character == '\\' ||
    (0x80 ≤ character.toNat && !isSpace character)

/-- Whether a word may go on with a character. -/
def continuesWord (character : Char) : Bool :=
  Text.isDigit character || (startsWord character && character != '#')

/-- Whether a number may go on with a character. -/
def continuesNumber (character : Char) : Bool :=
  continuesWord character || character == '.'

/-- Whether an operator that starts with the first character goes on with the second. -/
def continuesMark (first next : Char) : Bool :=
  (next == '=' && (first == '=' || first == '!' || first == '<' || first == '>')) ||
    (first == '=' && next == '>') || (first == '+' && next == '+') ||
    (first == '-' && next == '-')

/-! ### Tokens -/

/-- The words after which an operand must come. -/
def operandWords : List String :=
  ["return", "typeof", "case", "do", "else", "in", "of", "instanceof", "new", "delete", "void",
    "throw", "await", "yield", "extends", "keyof"]

/-- Whether an operand ends with a token. -/
def endsOperand (token : Token) : Bool :=
  match token.kind with
  | .word => !operandWords.contains token.text
  | .mark => [")", "]", "\x7d", "++", "--"].contains token.text
  | _ => true

/-- Whether a slash starts a regular expression. -/
def regexAllowed (lexer : Lexer) : Bool :=
  match lexer.tokens with
  | [] => true
  | last :: _ => !endsOperand last

/-- Takes a character. -/
def advance (lexer : Lexer) (character : Char) : Lexer :=
  { lexer with
    offset := lexer.offset + 1
    row := if character = '\n' then lexer.row + 1 else lexer.row }

/-- Takes a character and goes on in the given way. -/
def pass (lexer : Lexer) (character : Char) (lexing : Lexing) : Lexer :=
  { lexer.advance character with lexing }

/-- Takes a character into the open token. -/
def push (lexer : Lexer) (character : Char) (lexing : Lexing) : Lexer :=
  { lexer.pass character lexing with pending := character :: lexer.pending }

/-- Starts a token with a character. -/
def opening (lexer : Lexer) (character : Char) (lexing : Lexing) : Lexer :=
  { lexer.pass character lexing with
    pending := [character], start := lexer.offset, startRow := lexer.row }

/-- Ends the open token, of which all characters were taken; `row` is the line of the last one. -/
def emit (lexer : Lexer) (kind : TokenKind) (row : Nat) : Lexer :=
  { lexer with
    pending := []
    commented := false
    tokens := ⟨kind, String.ofList lexer.pending.reverse, lexer.start, lexer.startRow, row,
      lexer.commented⟩ :: lexer.tokens }

/-- Takes the last character of the open token. -/
def finish (lexer : Lexer) (character : Char) (kind : TokenKind) (lexing : Lexing) : Lexer :=
  (lexer.push character lexing).emit kind lexer.row

/-- Takes a character of a word or number, which ends unless the next character goes on with it. -/
def grow (lexer : Lexer) (kind : TokenKind) (lexing : Lexing) (goesOn : Char → Bool)
    (next : Option Char) : Lexer :=
  if next.any goesOn then { lexer with lexing }
  else { lexer with lexing := .code }.emit kind lexer.row

/-- Takes a bracket or operator. -/
def takeMark (lexer : Lexer) (character : Char) (next : Option Char) : Lexer :=
  if next.any (continuesMark character) then lexer.opening character .mark
  else
    let lexer := (lexer.opening character .code).emit .mark lexer.row
    match character, lexer.holes with
    | '\x7b', depth :: holes => { lexer with holes := (depth + 1) :: holes }
    | '\x7d', 0 :: holes => { lexer with
        holes, lexing := .template false, pending := [], start := lexer.offset
        startRow := lexer.row }
    | '\x7d', (depth + 1) :: holes => { lexer with holes := depth :: holes }
    | _, _ => lexer

/-- Takes a character between tokens. -/
def takeCode (lexer : Lexer) (character : Char) (next : Option Char) : Lexer :=
  if isSpace character then lexer.pass character .code
  else if character = '/' && next = some '/' then lexer.pass character .lineComment
  else if character = '/' && next = some '*' then lexer.pass character .commentOpening
  else if character = '#' && next = some '!' && lexer.offset = 0 then
    lexer.pass character .lineComment
  else if character = '/' && lexer.regexAllowed then lexer.opening character (.regex false false)
  else if startsWord character then
    (lexer.opening character .word).grow .word .word continuesWord next
  else if Text.isDigit character || (character = '.' && next.any Text.isDigit) then
    (lexer.opening character .number).grow .number .number continuesNumber next
  else if character = '"' || character = '\x27' then
    lexer.opening character (.quoted character false)
  else if character = '\x60' then lexer.opening character (.template false)
  else lexer.takeMark character next

/-- Takes a character, of which the next one is known. -/
def step (lexer : Lexer) (character : Char) (next : Option Char) : Lexer :=
  match lexer.lexing with
  | .code => lexer.takeCode character next
  | .lineComment =>
    { lexer.pass character (if character = '\n' then .code else .lineComment) with
      commented := true }
  | .commentOpening => lexer.pass character .comment
  | .comment =>
    lexer.pass character
      (if character = '*' && next = some '/' then .commentClosing else .comment)
  | .commentClosing => { lexer.pass character .code with commented := true }
  | .word => (lexer.push character .word).grow .word .word continuesWord next
  | .number => (lexer.push character .number).grow .number .number continuesNumber next
  | .mark =>
    if character = '=' && next = some '=' then lexer.push character .mark
    else lexer.finish character .mark .code
  | .quoted quote true => lexer.push character (.quoted quote false)
  | .quoted quote false =>
    if character = quote || character = '\n' then lexer.finish character .quoted .code
    else lexer.push character (.quoted quote (character == '\\'))
  | .template true => lexer.push character (.template false)
  | .template false =>
    if character = '\x60' then lexer.finish character .template .code
    else if character = '$' && next = some '\x7b' then lexer.finish character .template .hole
    else lexer.push character (.template (character == '\\'))
  | .hole =>
    { (lexer.opening character .code).emit .mark lexer.row with holes := 0 :: lexer.holes }
  | .regex inSet true => lexer.push character (.regex inSet false)
  | .regex inSet false =>
    if character = '\n' then (lexer.emit .mark lexer.row).pass character .code
    else if character = '/' && !inSet then
      if next.any continuesWord then lexer.push character .flags
      else lexer.finish character .regex .code
    else
      lexer.push character
        (.regex ((inSet || character == '[') && character != ']') (character == '\\'))
  | .flags => (lexer.push character .flags).grow .regex .flags continuesWord next

/-- Takes all characters. -/
def run (lexer : Lexer) : List Char → Lexer
  | [] => lexer
  | character :: rest => (lexer.step character rest.head?).run rest

/-- The tokens when no character is left. A token that is still open is one as well. -/
def result (lexer : Lexer) : List Token :=
  let lexer := if lexer.pending.isEmpty then lexer else lexer.emit .quoted lexer.row
  lexer.tokens.reverse

end Lexer

/-- The tokens of a source. -/
def tokens (source : String) : List Token :=
  (Lexer.initial.run source.toList).result

end ApiSurface.TypeScript
