/-
This file pairs the brackets of a source. What stands between a bracket and its partner becomes one
piece, so that whoever looks for declarations steps over it as a whole. A bracket without a partner is
taken to be closed where the source ends, and a closing one that closes nothing is left out.
-/

import ApiSurface.TypeScript.Token

namespace ApiSurface.TypeScript

/-- A piece of a source. -/
inductive Tree where
  /-- A token that is no bracket. -/
  | leaf (token : Token)
  /-- A pair of brackets with what stands between them. -/
  | group (opened : Token) (inside : List Tree) (closed : Token)
  deriving Repr, Inhabited

namespace Tree

/-! ### Pairing -/

/-- The bracket that closes another one. -/
def closerOf? (opener : String) : Option String :=
  match opener with
  | "(" => some ")"
  | "[" => some "]"
  | "\x7b" => some "\x7d"
  | _ => none

/-- Whether a text is a closing bracket. -/
def isCloser (text : String) : Bool :=
  text == ")" || text == "]" || text == "\x7d"

/-- A bracket that is open, with the pieces before it in reverse order. -/
structure OpenBracket where
  /-- The bracket. -/
  token : Token
  /-- The pieces before it. -/
  before : List Tree
  deriving Repr, Inhabited

/-- The pieces in the innermost open bracket in reverse order, and the open brackets. -/
structure Pairing where
  /-- The pieces. -/
  pieces : List Tree
  /-- The open brackets, the innermost first. -/
  brackets : List OpenBracket
  deriving Repr, Inhabited

/-- Closes the innermost bracket with a token. -/
def Pairing.close (pairing : Pairing) (token : Token) : Pairing :=
  match pairing.brackets with
  | [] => pairing
  | bracket :: brackets =>
    ⟨.group bracket.token pairing.pieces.reverse token :: bracket.before, brackets⟩

/-- Takes a token. -/
def Pairing.step (pairing : Pairing) (token : Token) : Pairing :=
  if token.kind = .mark && (closerOf? token.text).isSome then
    ⟨[], ⟨token, pairing.pieces⟩ :: pairing.brackets⟩
  else if token.kind = .mark && isCloser token.text then
    match pairing.brackets.head?.bind fun bracket => closerOf? bracket.token.text with
    | some closer => if closer = token.text then pairing.close token else pairing
    | none => pairing
  else { pairing with pieces := .leaf token :: pairing.pieces }

/-- Closes all brackets that are open with a token. -/
def Pairing.closeAll (token : Token) : List Tree → List OpenBracket → List Tree
  | pieces, [] => pieces.reverse
  | pieces, bracket :: brackets =>
    closeAll token (.group bracket.token pieces.reverse token :: bracket.before) brackets

/-- The pieces of a source. -/
def ofTokens (tokens : List Token) : List Tree :=
  let pairing := tokens.foldl Pairing.step ⟨[], []⟩
  match tokens.getLast? with
  | some last => Pairing.closeAll last pairing.pieces pairing.brackets
  | none => []

/-! ### Views -/

/-- The first token. -/
def first : Tree → Token
  | .leaf token => token
  | .group opened _ _ => opened

/-- The last token. -/
def last : Tree → Token
  | .leaf token => token
  | .group _ _ closed => closed

/-- The line on which a piece starts. -/
def row (tree : Tree) : Nat := tree.first.row

/-- The line on which a piece ends. -/
def lastRow (tree : Tree) : Nat := tree.last.lastRow

/-- Whether a piece is a given mark. -/
def isMark (tree : Tree) (text : String) : Bool :=
  match tree with
  | .leaf token => token.kind == .mark && token.text == text
  | _ => false

/-- The word that a piece is. -/
def word? : Tree → Option String
  | .leaf token => if token.kind = .word then some token.text else none
  | _ => none

/-- Whether a piece is a given word. -/
def isWord (tree : Tree) (text : String) : Bool :=
  tree.word? == some text

/-- Whether a piece is a pair of the given brackets. -/
def isGroup (tree : Tree) (opener : String) : Bool :=
  match tree with
  | .group opened _ _ => opened.text == opener
  | _ => false

/-- Whether a piece is a block, that is, a pair of braces. -/
def isBlock (tree : Tree) : Bool := tree.isGroup "\x7b"

/-- Whether a piece is a list of parameters or arguments, that is, a pair of parentheses. -/
def isParenthesized (tree : Tree) : Bool := tree.isGroup "("

/-- Whether a piece is a text of a template. -/
def isTemplate : Tree → Bool
  | .leaf token => token.kind == .template
  | _ => false

/-! ### Lines -/

/-- The marks that an operand may end with. -/
def endingMarks : List String := ["++", "--", "!", ">", ";"]

/-- The words that no expression and no type ends with. -/
def openWords : List String :=
  ["typeof", "case", "do", "else", "in", "of", "instanceof", "new", "delete", "throw", "await",
    "extends", "implements", "keyof", "as", "satisfies", "is"]

/-- Whether an expression or a type may end with a piece. -/
def mayEnd : Tree → Bool
  | .leaf token =>
    match token.kind with
    | .mark => endingMarks.contains token.text
    | .word => !openWords.contains token.text
    | _ => true
  | .group _ _ _ => true

/-- The words that go on with an expression or a type. -/
def continuingWords : List String :=
  ["in", "of", "instanceof", "as", "satisfies", "extends", "implements", "is"]

/-- The marks that start something new. -/
def startingMarks : List String := ["@", "++", "--", "!", "~"]

/-- Whether an expression or a type may go on with a piece on a new line. -/
def mayContinue : Tree → Bool
  | .leaf token =>
    match token.kind with
    | .mark => !startingMarks.contains token.text
    | .word => continuingWords.contains token.text
    | .template => true
    | _ => false
  | .group opened _ _ => opened.text != "\x7b"

/-- Whether a line break between two pieces ends a statement. -/
def endsBetween (before after : Tree) : Bool :=
  before.lastRow < after.row && before.mayEnd && !after.mayContinue

end Tree

end ApiSurface.TypeScript
