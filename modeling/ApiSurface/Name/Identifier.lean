/-
This file makes identifiers of TypeScript: from any text, and for the method of an operation. An
identifier has only ASCII letters, digits and underscores, starts with a letter and is none of the
words that the language keeps for itself. The two names of a receiver are left as they are, because
whoever allocates names refuses them anyway.
-/

import ApiSurface.Name.Words
import ApiSurface.Text.Search
import ApiSurface.Verb

namespace ApiSurface.Name

/-- The words that cannot name a parameter. -/
def reservedWords : List String :=
  ["any", "arguments", "as", "await", "boolean", "break", "case", "catch", "class", "const",
    "constructor", "continue", "debugger", "declare", "default", "delete", "do", "else", "enum",
    "eval", "export", "extends", "false", "finally", "for", "from", "function", "get", "if",
    "implements", "import", "in", "instanceof", "interface", "let", "module", "namespace", "new",
    "null", "number", "of", "package", "private", "protected", "public", "require", "return",
    "set", "static", "string", "super", "switch", "symbol", "this", "throw", "true", "try",
    "type", "typeof", "undefined", "var", "void", "while", "with", "yield"]

/-- Whether a word cannot name a parameter. -/
def isReserved (name : String) : Bool := reservedWords.contains name

/-- The names of a receiver. -/
def receivers : List String := ["this", "self"]

/-- An underscore for each character that no identifier holds, and none at the ends. -/
def bareIdentifier (text : List Char) : List Char :=
  let replaced :=
    text.map fun character => if Text.continuesName character then character else '_'
  ((replaced.dropWhile (· == '_')).reverse.dropWhile (· == '_')).reverse

/-- An identifier for a text. -/
def sanitize (text : String) : String :=
  let name := match bareIdentifier text.toList with
    | [] => "param".toList
    | first :: rest => if Text.isDigit first then 'p' :: '_' :: first :: rest else first :: rest
  let name := String.ofList name
  if !receivers.contains name && isReserved name then name ++ "_" else name

/-- The name that a piece of a path stands for; a placeholder becomes `by` and its name. -/
def pieceName (piece : List Char) : String :=
  let placeholder := (Text.dropLead? ['\x7b'] piece).bind (Text.dropTail? ['\x7d'])
  match placeholder with
  | some name => "by_" ++ snake (String.ofList name)
  | none => snake (String.ofList piece)

/-- The pieces of a path between its slashes that are not empty. -/
def pathPieces (path : String) : List (List Char) :=
  (path.toList.splitOnP (· == '/')).filter fun piece => !piece.isEmpty

/-- The name of the method for a verb and a path. -/
def ofPath (verb : Verb) (path : String) : String :=
  match ((pathPieces path).map pieceName).filter fun name => !name.isEmpty with
  | [] => "root"
  | names => sanitize (verb.lower ++ "_" ++ "_".intercalate names)

/-- The name of the method for an operation: its own identifier names it unless that holds no word. -/
def ofOperation (identifier : Option String) (verb : Verb) (path : String) : String :=
  match identifier.map snake with
  | some name => if name.isEmpty then ofPath verb path else sanitize name
  | none => ofPath verb path

/-- The name of the client class for a title. -/
def ofClient (title : String) : String :=
  let name := pascal title
  if name.toList.head?.any Text.isDigit then "Api" ++ name ++ "Client" else name ++ "Client"

end ApiSurface.Name
