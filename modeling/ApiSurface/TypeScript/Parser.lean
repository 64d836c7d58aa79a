/-
This file says what a parser for TypeScript offers: for every source a tree of nodes, even for one with
mistakes in it. A node has a kind, perhaps a field of the node above that it fills, and a place in the
source. Marks and keywords are nodes without a name; comments are nodes like all others. Whatever looks
at a source takes the parser as it is given.
-/

namespace ApiSurface.TypeScript

/-- A node of a syntax tree, without its parts. -/
structure SyntaxNode where
  /-- What it is. -/
  kind : String
  /-- Whether it is more than a mark or a keyword. -/
  isNamed : Bool
  /-- The field of the node above that it fills. -/
  field? : Option String
  /-- How many bytes of the source come before it. -/
  start : Nat
  /-- How many bytes of the source come before its end. -/
  stop : Nat
  /-- The line on which it starts, counted from zero. -/
  row : Nat
  /-- The line on which it ends. -/
  lastRow : Nat
  deriving DecidableEq, Repr, Inhabited

/-- A syntax tree. -/
inductive SyntaxTree where
  /-- A node with its parts, in the order of the source. -/
  | node (own : SyntaxNode) (parts : List SyntaxTree)
  deriving Repr, Inhabited

/-- A parser. -/
class Parser where
  /-- The tree of a source. -/
  parse : String → SyntaxTree

/-- A node as it is seen from the root of its tree. -/
structure Place where
  /-- The node with its parts. -/
  tree : SyntaxTree
  /-- The named nodes before it that are parts of the same node, the nearest first. -/
  before : List SyntaxNode
  /-- The nodes of which it is a part, the innermost first, each with the named nodes before it. -/
  around : List (SyntaxNode × List SyntaxNode)
  deriving Repr, Inhabited

namespace SyntaxTree

/-- The node itself. -/
def own : SyntaxTree → SyntaxNode
  | .node own _ => own

/-- The named parts. -/
def namedParts : SyntaxTree → List SyntaxTree
  | .node _ parts => parts.filter fun part => part.own.isNamed

/-- The part that fills a field. -/
def part? (field : String) : SyntaxTree → Option SyntaxTree
  | .node _ parts => parts.find? fun part => part.own.field? == some field

mutual

/-- The places of a tree and of its named parts at any depth, in the order of the source. -/
def placesFrom (before : List SyntaxNode) (around : List (SyntaxNode × List SyntaxNode)) :
    SyntaxTree → List Place
  | .node own parts =>
    ⟨.node own parts, before, around⟩ :: placesOfParts ((own, before) :: around) [] parts

/-- The places of named parts, of which some come before the others. -/
def placesOfParts (around : List (SyntaxNode × List SyntaxNode)) (before : List SyntaxNode) :
    List SyntaxTree → List Place
  | [] => []
  | part :: rest =>
    if part.own.isNamed then
      placesFrom before around part ++ placesOfParts around (part.own :: before) rest
    else placesOfParts around before rest

end

/-- The places of the named nodes, in the order of the source. -/
def places (tree : SyntaxTree) : List Place :=
  tree.placesFrom [] []

end SyntaxTree

end ApiSurface.TypeScript
