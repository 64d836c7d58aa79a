/-
This file finds the functions of a source that have no documentation. Only declarations count: functions
of the module itself, names of the module for function values, and methods of classes, as the tree of a
parser has them. A function counts as documented when the nearest line above it that is neither blank nor
a decorator ends like a block comment.
-/

import ApiSurface.Text.Line
import ApiSurface.Text.Search
import ApiSurface.TypeScript.Parser

namespace ApiSurface

open TypeScript (Parser Place SyntaxNode SyntaxTree)

/-- A function without documentation. -/
structure FunctionSite where
  /-- Its name. -/
  name : String
  /-- The line above which its documentation goes, counted from zero. -/
  line : Nat
  /-- The blanks at the start of that line. -/
  indent : String
  /-- Its text as far as a writer sees it. -/
  source : String
  deriving DecidableEq, Repr, Inhabited

namespace FunctionSite

/-! ### Declarations -/

/-- The kinds of nodes that are function values. -/
def functionKinds : List String :=
  ["arrow_function", "function", "function_expression", "generator_function"]

/-- Whether a node belongs to the module itself, be it with `export` or without. -/
def isOfModule (place : Place) : Bool :=
  match place.around with
  | [] => false
  | (parent, _) :: outer =>
    parent.kind == "program" ||
      (parent.kind == "export_statement" && outer.head?.any fun (node, _) => node.kind == "program")

/-- Whether a node gives a function value a name. -/
def namesFunction (tree : SyntaxTree) : Bool :=
  tree.own.kind == "variable_declarator" &&
    (tree.part? "value").any fun value => functionKinds.contains value.own.kind

/-- The node that names the function which a node declares, if it declares one. -/
def nameNode? (place : Place) : Option SyntaxTree :=
  match place.tree.own.kind with
  | "function_declaration" | "generator_function_declaration" =>
    if isOfModule place then place.tree.part? "name" else none
  | "lexical_declaration" | "variable_declaration" =>
    if isOfModule place then
      (place.tree.namedParts.find? namesFunction).bind fun declarator => declarator.part? "name"
    else none
  | "method_definition" =>
    if place.around.head?.any fun (parent, _) => parent.kind == "class_body" then
      place.tree.part? "name"
    else none
  | _ => none

/-- The first node of a declaration, which may be the `export` around it or a decorator before that. -/
def anchor (place : Place) : SyntaxNode :=
  let (node, before) := match place.around with
    | (parent, others) :: _ =>
      if parent.kind = "export_statement" then (parent, others) else (place.tree.own, place.before)
    | [] => (place.tree.own, place.before)
  ((before.takeWhile fun sibling => sibling.kind == "decorator").getLast?).getD node

/-- The name of the function that a node declares, and the first node of the declaration. -/
def declared? (source : String) (place : Place) : Option (String × SyntaxNode) := do
  let name ← nameNode? place
  let text ← Text.cutBytes? name.own.start name.own.stop source.toList
  return (String.ofList text, anchor place)

/-! ### Lines -/

/-- How many lines of a function a writer sees. -/
def visibleLines : Nat := 60

/-- Whether the lines above a function end with a comment, where blank lines and decorators do not
count. -/
def hasComment (before : List (List Char)) : Bool :=
  let line? := (before.reverse.map Text.trim).find? fun line =>
    !line.isEmpty && line.head? != some '@'
  line?.any fun line => (Text.dropTail? ['*', '/'] line).isSome

/-- The lines above one of some lines. -/
def linesAbove (lines : List (List Char)) (row : Nat) : List (List Char) :=
  if row ≤ lines.length then lines.take row else []

/-- The lines from one to another, if both are there. -/
def linesThrough (lines : List (List Char)) (first last : Nat) : List (List Char) :=
  if first ≤ last + 1 ∧ last + 1 ≤ lines.length then (lines.drop first).take (last + 1 - first)
  else []

/-! ### Sites -/

/-- The site of the function that a node declares, if it has no documentation; the lines are those of its
source. -/
def ofPlace? (source : String) (lines : List (List Char)) (place : Place) : Option FunctionSite := do
  let (name, first) ← declared? source place
  if hasComment (linesAbove lines first.row) then none
  else
    let extent := linesThrough lines first.row place.tree.own.lastRow
    return {
      name
      line := first.row
      indent := String.ofList ((lines.getD first.row []).takeWhile Text.isBlank)
      source := String.ofList (Text.joinLines (extent.take visibleLines)) }

/-- Keeps of sites that follow each other on one line the first; `previous` is the line of the site
before. -/
def onePerLine (previous : Option Nat) : List FunctionSite → List FunctionSite
  | [] => []
  | site :: rest =>
    if previous = some site.line then onePerLine previous rest
    else site :: onePerLine (some site.line) rest

/-- The functions of a source that have no documentation, in its order, where a tree is that of the
source. -/
def undocumentedIn (source : String) (tree : SyntaxTree) : List FunctionSite :=
  onePerLine none (tree.places.filterMap (ofPlace? source (Text.lines source.toList)))

/-- The functions of a source that have no documentation, in its order. -/
def undocumented [Parser] (source : String) : List FunctionSite :=
  undocumentedIn source (Parser.parse source)

end FunctionSite

end ApiSurface
