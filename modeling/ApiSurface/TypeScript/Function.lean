/-
This file finds the functions that a source declares: those of the module itself, as functions or as
names for function values, and the methods of classes wherever the classes are. Functions inside other
functions, in blocks or passed as arguments are not declared; neither is a function or method that has
a signature but no body. What is found makes up a tree that has only these functions in it, and so a
parser for where none other is given.
-/

import ApiSurface.Text.Line
import ApiSurface.TypeScript.Parser
import ApiSurface.TypeScript.Tree

namespace ApiSurface.TypeScript

/-- A function that a source declares. -/
structure DeclaredFunction where
  /-- Its name as the source writes it. -/
  name : String
  /-- How many characters come before its name. -/
  nameStart : Nat
  /-- How many characters come before its declaration. -/
  start : Nat
  /-- The line on which its declaration starts, with `export` and decorators. -/
  row : Nat
  /-- The line on which its declaration ends. -/
  lastRow : Nat
  deriving DecidableEq, Repr, Inhabited

namespace DeclaredFunction

/-! ### Ends -/

/-- The number of pieces up to and with the angle bracket that closes one, where `depth` further ones
are open, if all that stands between them may stand in a type. -/
def angleLength? (depth : Nat) : List Tree → Option Nat
  | [] => none
  | tree :: rest =>
    if tree.isMark ">" then
      if depth = 0 then some 1 else (angleLength? (depth - 1) rest).map (· + 1)
    else if tree.isMark "<" then (angleLength? (depth + 1) rest).map (· + 1)
    else if inType tree then (angleLength? depth rest).map (· + 1)
    else none
where
  /-- Whether a piece may stand in a type. -/
  inType : Tree → Bool
    | .leaf token =>
      token.kind != .mark || [",", ".", "|", "&", "=>", "?", ":", "=", "-"].contains token.text
    | .group _ _ _ => true

/-- Drops type parameters or arguments in angle brackets. -/
def dropAngles (trees : List Tree) : List Tree :=
  match trees with
  | tree :: rest => if tree.isMark "<" then rest.drop ((angleLength? 0 rest).getD 0) else trees
  | [] => []

/-- Whether an operand of a type must come after a piece. -/
def expectsType : Tree → Bool
  | .leaf token =>
    match token.kind with
    | .mark => ["|", "&", "=>", ":", "?", ".", ",", "-"].contains token.text
    | .word =>
      ["is", "keyof", "typeof", "readonly", "infer", "new", "asserts", "extends", "unique", "in",
        "implements"].contains token.text
    | _ => false
  | .group _ _ _ => false

/-- Splits pieces where the statement ends that they start with. A function or class that has no body
yet may have it on the next line. -/
def spanStatement (previous : Option Tree) (awaiting : Bool) :
    List Tree → List Tree × List Tree
  | [] => ([], [])
  | tree :: rest =>
    if tree.isMark ";" then ([tree], rest)
    else if previous.any fun before => Tree.endsBetween before tree && !(awaiting && tree.isBlock)
    then ([], tree :: rest)
    else
      let awaiting :=
        (awaiting || tree.isWord "function" || tree.isWord "class") &&
          !(tree.isBlock && !previous.any expectsType)
      let (statement, rest) := spanStatement (some tree) awaiting rest
      (tree :: statement, rest)

/-- The body that comes after a head, which may have types in it, and what follows; there is none if
the head ends before. -/
def findBody (expecting : Bool) (depth : Nat) (previous : Tree) :
    List Tree → Option Tree × List Tree
  | [] => (none, [])
  | tree :: rest =>
    if tree.isMark ";" then (none, rest)
    else if depth = 0 && !expecting && tree.isBlock then (some tree, rest)
    else if depth = 0 && !expecting && Tree.endsBetween previous tree then (none, tree :: rest)
    else if tree.isMark "<" then findBody true (depth + 1) tree rest
    else if tree.isMark ">" then findBody false (depth - 1) tree rest
    else findBody (expectsType tree) depth tree rest

/-- What follows the rest of a decorator, after its mark. -/
def dropDecorator : List Tree → List Tree
  | [] => []
  | tree :: rest =>
    if tree.isParenthesized then rest
    else
      match rest with
      | point :: name :: more =>
        if point.isMark "." then dropDecorator (name :: more)
        else if point.isParenthesized then name :: more
        else rest
      | [last] => if last.isParenthesized then [] else rest
      | [] => []

/-! ### Values -/

/-- Whether the pieces after a list of parameters make it one of an arrow function. -/
def followsParameters : List Tree → Bool
  | [] => false
  | tree :: rest =>
    tree.isMark "=>" || (tree.isMark ":" && rest.any fun piece => piece.isMark "=>")

/-- The name and the body of a function, if it has them, and what follows it; the pieces are those after
the word `function`. -/
def functionParts (trees : List Tree) : Option Tree × Option Tree × List Tree :=
  let trees := match trees with
    | star :: rest => if star.isMark "*" then rest else trees
    | [] => []
  let (name?, trees) := match trees with
    | name :: rest => if name.word?.isSome then (some name, rest) else (none, trees)
    | [] => (none, [])
  match dropAngles trees with
  | parameters :: rest => (name?, findBody false 0 parameters rest)
  | [] => (name?, none, [])

/-- Whether pieces are a function value that is not called, cast or combined with anything. -/
def isFunctionValue (trees : List Tree) : Bool :=
  let trees := match trees with
    | first :: second :: rest =>
      if first.isWord "async" && !second.isMark "=>" then second :: rest else trees
    | trees => trees
  match trees with
  | [] => false
  | first :: rest =>
    if first.isWord "function" then
      let (_, body?, rest) := functionParts rest
      body?.isSome && rest.isEmpty
    else if first.isParenthesized then followsParameters rest
    else if first.isMark "<" then
      match dropAngles trees with
      | parameters :: rest => parameters.isParenthesized && followsParameters rest
      | [] => false
    else first.word?.isSome && rest.head?.any fun piece => piece.isMark "=>"

/-- A part of the declaration of a variable. -/
inductive VariablePart where
  | name
  | type
  | value
  deriving DecidableEq, Repr, Inhabited

/-- Whether an operand ends with a piece. -/
def endsOperand : Tree → Bool
  | .leaf token => Lexer.endsOperand token
  | .group _ _ _ => true

/-- Whether a piece may come after the angle bracket that closes the arguments of a type. No operand may,
because then the brackets compare. -/
def followsAngles : Tree → Bool
  | .leaf token =>
    match token.kind with
    | .mark => !(["+", "-", "!", "~", "<", "++", "--"].contains token.text)
    | .word => ["as", "satisfies", "is"].contains token.text
    | .template => true
    | _ => false
  | .group _ _ _ => true

/-- How many pieces belong to the angle brackets that open after `before` in a value; none if the
bracket compares two operands. -/
def anglesInValue (before : Option Tree) (rest : List Tree) : Nat :=
  let length := (angleLength? 0 rest).getD 0
  if before.any endsOperand && (rest.drop length).head?.any fun piece => !followsAngles piece then 0
  else length

/-- The variables that pieces declare, each with its value, which is read in reverse order; `skip`
pieces are passed over whatever they are. -/
def declarators (skip : Nat) (part : VariablePart) (name : Option Tree) (value : List Tree) :
    List Tree → List (Tree × List Tree)
  | [] => (name.map fun name => (name, value.reverse)).toList
  | tree :: rest =>
    let value' := if part = .value then tree :: value else value
    if skip ≠ 0 then declarators (skip - 1) part name value' rest
    else if part = .name then declarators 0 .type (some tree) [] rest
    else if tree.isMark "," then
      (name.map fun name => (name, value.reverse)).toList ++ declarators 0 .name none [] rest
    else if part = .type && tree.isMark "=" then declarators 0 .value name [] rest
    else if tree.isMark "<" then
      let length :=
        if part = .type then (angleLength? 0 rest).getD 0 else anglesInValue value.head? rest
      declarators length part name value' rest
    else declarators 0 part name value' rest

/-- The text of a piece in a source. -/
def textOf (source : List Char) : Tree → String
  | .leaf token => token.text
  | .group opened _ closed =>
    String.ofList ((source.drop opened.start).take (closed.start + 1 - opened.start))

/-- The first variable of a declaration whose value is a function. -/
def ofVariables? (source : List Char) (start : Tree) (declaration : List Tree) (row : Nat) :
    Option DeclaredFunction := do
  let (name, _) ← (declarators 0 .name none [] declaration).find? fun found =>
    isFunctionValue (found.2.filter fun piece => !piece.isMark ";")
  return ⟨textOf source name, name.first.start, start.first.start, row,
    (declaration.getLast?.map Tree.lastRow).getD start.lastRow⟩

/-- The function that starts with a piece, where `rest` comes after the word `function`; and what
follows it. -/
def ofFunction (source : List Char) (start : Tree) (row : Nat) (rest : List Tree) :
    Option DeclaredFunction × List Tree :=
  let (name?, body?, rest) := functionParts rest
  (do
    let name ← name?
    let body ← body?
    return ⟨textOf source name, name.first.start, start.first.start, row, body.lastRow⟩, rest)

/-! ### Modules -/

/-- What is known about the next statement of a module. -/
structure StatementContext where
  /-- Whether it is part of another statement. -/
  nested : Bool := false
  /-- The word `export` before it. -/
  exported : Option Tree := none
  deriving Repr, Inhabited

/-- The words after which a condition in parentheses and another statement come. -/
def conditionWords : List String := ["if", "while", "for", "with", "switch", "catch"]

/-- The words after which another statement comes. -/
def leadingWords : List String := ["else", "do", "try", "finally"]

/-- The words that declare something with a body of its own. -/
def bodyWords : List String := ["class", "interface", "enum", "namespace", "module", "global"]

/-- What follows a condition in parentheses. -/
def dropCondition : List Tree → List Tree
  | [] => []
  | tree :: rest =>
    if tree.isParenthesized then rest
    else
      match rest with
      | condition :: more =>
        if tree.isWord "await" && condition.isParenthesized then more else tree :: rest
      | [] => [tree]

/-- The functions that the statements of a module declare; `fuel` is at least the number of pieces,
because every step takes one of them at least. -/
def ofStatements (source : List Char) : Nat → StatementContext → List Tree → List DeclaredFunction
  | 0, _, _ | _, _, [] => []
  | fuel + 1, context, tree :: rest =>
    let row := (context.exported.getD tree).row
    let next := rest.head?
    let nextIsWord := next.any fun piece => piece.word?.isSome
    let report (found : Option DeclaredFunction) (rest : List Tree) : List DeclaredFunction :=
      (if context.nested then [] else found.toList) ++ ofStatements source fuel {} rest
    match tree.word? with
    | none =>
      if tree.isMark "@" then ofStatements source fuel context (dropDecorator rest)
      else if tree.isMark ";" || tree.isBlock then ofStatements source fuel {} rest
      else ofStatements source fuel {} (spanStatement none false (tree :: rest)).2
    | some word =>
      if word = "export" then
        ofStatements source fuel { context with exported := some tree } rest
      else if word = "default" && context.exported.isSome then
        ofStatements source fuel context rest
      else if word = "declare" && nextIsWord then
        ofStatements source fuel { context with nested := true } rest
      else if word = "abstract" && next.any fun piece => piece.isWord "class" then
        ofStatements source fuel context rest
      else if word = "function" then
        let (found, rest) := ofFunction source tree row rest
        report found rest
      else if word = "async" && next.any fun piece => piece.isWord "function" then
        let (found, rest) := ofFunction source tree row (rest.drop 1)
        report found rest
      else if word = "const" && next.any fun piece => piece.isWord "enum" then
        ofStatements source fuel {} (findBody false 0 tree rest).2
      else if (word = "const" || word = "let" || word = "var") && next.isSome then
        let (declaration, rest) := spanStatement none false rest
        report (ofVariables? source tree declaration row) rest
      else if word = "class" || (bodyWords.contains word && next.any startsHead) then
        ofStatements source fuel {} (findBody false 0 tree rest).2
      else if conditionWords.contains word then
        ofStatements source fuel { nested := true } (dropCondition rest)
      else if leadingWords.contains word then ofStatements source fuel { nested := true } rest
      else if next.any fun piece => piece.isMark ":" then
        ofStatements source fuel { nested := true } (rest.drop 1)
      else ofStatements source fuel {} (spanStatement none false (tree :: rest)).2
where
  /-- Whether a piece may be the start of what a declaration with a body declares. -/
  startsHead (tree : Tree) : Bool :=
    match tree with
    | .leaf token => token.kind == .word || token.kind == .quoted
    | .group _ _ _ => tree.isBlock

/-! ### Classes -/

/-- The words and the mark that may come before the name of a member. -/
def isModifier (tree : Tree) : Bool :=
  tree.isMark "*" ||
    tree.word?.any fun word =>
      ["public", "private", "protected", "static", "override", "readonly", "abstract", "async",
        "get", "set", "declare", "accessor"].contains word

/-- Whether a piece may be or come before the name of a member. -/
def startsName : Tree → Bool
  | .leaf token =>
    match token.kind with
    | .word | .number | .quoted => true
    | .mark => token.text == "*"
    | _ => false
  | .group opened _ _ => opened.text == "["

/-- Drops what comes before the name of a member. The slash of a comment that was closed before may
stand after the star. -/
def dropModifiers : List Tree → List Tree
  | [] => []
  | tree :: rest =>
    if isModifier tree && rest.head?.any startsName then dropModifiers rest
    else
      match rest with
      | slash :: name :: more =>
        if tree.isMark "*" && slash.isMark "/" && startsName name then name :: more
        else tree :: rest
      | _ => tree :: rest

/-- Whether a piece may come after the name of a member. -/
def followsName (name next : Tree) : Bool :=
  name.lastRow < next.row || next.isParenthesized || next.isBlock ||
    ["<", "?", "!", ":", "=", ";"].any next.isMark

/-- Drops the mark after the name of a member that may be missing or surely is there. -/
def dropNameMark (trees : List Tree) : List Tree :=
  match trees with
  | tree :: rest => if tree.isMark "?" || tree.isMark "!" then rest else trees
  | [] => []

/-- The methods with a body among the members of a class; `anchor` is the line of the decorators
before the next member. -/
def ofMembers (source : List Char) : Nat → Option Nat → List Tree → List DeclaredFunction
  | 0, _, _ | _, _, [] => []
  | fuel + 1, anchor, tree :: rest =>
    if tree.isMark ";" then ofMembers source fuel none rest
    else
      let anchor := if tree.first.commented then none else anchor
      if tree.isMark "@" then
        ofMembers source fuel (some (anchor.getD tree.row)) (dropDecorator rest)
      else
        match dropModifiers (tree :: rest) with
        | [] => []
        | name :: after =>
          match dropAngles (dropNameMark after) with
          | [] => []
          | next :: more =>
            if !startsName name || after.head?.any fun piece => !followsName name piece then
              ofMembers source fuel none after
            else if next.isParenthesized then
              let (body, rest) := findBody false 0 next more
              (body.map fun body =>
                (⟨textOf source name, name.first.start, tree.first.start, anchor.getD tree.row,
                  body.lastRow⟩ : DeclaredFunction)).toList ++ ofMembers source fuel none rest
            else if next.isBlock && name.isWord "static" then ofMembers source fuel none more
            else ofMembers source fuel none (spanStatement (some name) false after).2

/-- Whether the word `class` starts a class and is not a name, by what comes before and after. -/
def startsClass (previous : Option Tree) (tree : Tree) (next : Option Tree) : Bool :=
  tree.isWord "class" && !(previous.any fun piece => piece.isMark ".") &&
    next.any fun piece => piece.word?.isSome || piece.isBlock || piece.isMark "<"

mutual

/-- The methods of the classes inside a piece. -/
def ofClassesIn (source : List Char) : Tree → List DeclaredFunction
  | .leaf _ => []
  | .group _ inside _ => ofClasses source none inside

/-- The methods of the classes among pieces and inside them. -/
def ofClasses (source : List Char) (previous : Option Tree) : List Tree → List DeclaredFunction
  | [] => []
  | tree :: rest =>
    let own :=
      if startsClass previous tree rest.head? then
        match (findBody false 0 tree rest).1 with
        | some (.group _ members _) => ofMembers source members.length none members
        | _ => []
      else []
    own ++ ofClassesIn source tree ++ ofClasses source (some tree) rest

end

/-- The functions that a source declares, in its order. -/
def ofSource (source : String) : List DeclaredFunction :=
  let trees := Tree.ofTokens (tokens source)
  let characters := source.toList
  (ofStatements characters trees.length {} trees ++ ofClasses characters none trees).mergeSort
    fun left right => left.start ≤ right.start

/-! ### Trees -/

/-- The function as a node of a tree, with its name as the only part. -/
def node (source : List Char) (function : DeclaredFunction) : SyntaxTree :=
  let before := Text.byteLength (source.take function.start)
  let start := Text.byteLength (source.take function.nameStart)
  let stop := start + Text.byteLength function.name.toList
  let name : SyntaxNode :=
    ⟨"identifier", true, some "name", start, stop, function.row, function.lastRow⟩
  .node ⟨"function_declaration", true, none, before, stop, function.row, function.lastRow⟩
    [.node name []]

/-- The tree of the functions of a source. -/
def tree (source : String) : SyntaxTree :=
  let characters := source.toList
  .node ⟨"program", true, none, 0, Text.byteLength characters, 0, characters.count '\n'⟩
    ((ofSource source).map (node characters))

end DeclaredFunction

/-- The parser whose trees have the functions of this file. -/
instance : Parser where
  parse := DeclaredFunction.tree

end ApiSurface.TypeScript
