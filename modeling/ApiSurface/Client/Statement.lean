/-
This file writes the statements of a method: arguments that must be given are checked, the path is put
together, the query and the body are collected from the arguments that were given, and the request is
sent and its answer decoded.
-/

import ApiSurface.Client.Basic
import ApiSurface.Text.Search
import ApiSurface.TypeScript.Literal

namespace ApiSurface.Client

/-! ### Paths -/

/-- The path as the text of a template literal: backslashes, backticks and dollar signs before a brace
are escaped. -/
def escapedPath (path : String) : List Char :=
  let path := Text.replaceAll ['\\'] ['\\', '\\'] path.toList
  let path := Text.replaceAll ['\x60'] ['\\', '\x60'] path
  Text.replaceAll ['$', '\x7b'] ['\\', '$', '\x7b'] path

/-- The placeholder of a name. -/
def placeholder (external : String) : List Char :=
  '\x7b' :: external.toList ++ ['\x7d']

/-- The hole of a template literal that holds an argument. -/
def hole (internal : String) : List Char :=
  "$\x7bencodeURIComponent(String(".toList ++ internal.toList ++ "))\x7d".toList

/-- The path as a template literal, with a hole for every placeholder that an argument replaces. -/
def pathExpression (plan : RequestPlan) : String :=
  let filled := plan.pathBindings.foldl
    (fun path binding => Text.replaceAll (placeholder binding.external) (hole binding.internal) path)
    (escapedPath plan.path)
  String.ofList ('\x60' :: filled ++ ['\x60'])

/-! ### Statements -/

/-- The check that an argument is given. -/
def requiredCheck (name : String) : String :=
  "if (" ++ name ++ " == null) throw new MissingParameterError(" ++ TypeScript.stringLiteral name ++
    ");"

/-- The assignment of an argument to a member, if it is given. -/
def assignment (target : String) (binding : Binding) : String :=
  "if (" ++ binding.internal ++ " != null) " ++ target ++ "[" ++
    TypeScript.stringLiteral binding.external ++ "] = " ++ binding.internal ++ ";"

/-- The statements that collect arguments in an object. -/
def collection (target valueType : String) (bindings : List Binding) : List String :=
  ("const " ++ target ++ ": Record<string, " ++ valueType ++ "> = \x7b\x7d;") ::
    bindings.map (assignment target)

/-- The statements that collect the query, and the option that sends it. -/
def queryStatements (bindings : List Binding) : List String × List String :=
  if bindings.isEmpty then ([], [])
  else (collection "_query" "unknown" bindings, ["query: _query"])

/-- The statements that collect the body, and the options that send it. -/
def bodyStatements : BodyShape → List String × List String
  | .none => ([], [])
  | .multipart fields files =>
    (collection "_form" "unknown" fields ++ collection "_files" "Blob | Blob[]" files,
      ["form: _form", "files: _files"])
  | .form fields => (collection "_form" "unknown" fields, ["form: _form"])
  | .jsonObject _ fields => (collection "_payload" "unknown" fields, ["json: _payload"])
  | .jsonArray _ parameter | .jsonAny _ parameter => ([], ["json: " ++ parameter])
  | .raw _ parameter => ([], ["content: " ++ parameter])

/-- The option that names the media type. -/
def contentTypeOption (body : BodyShape) : List String :=
  match body.contentType? with
  | some contentType => ["contentType: " ++ TypeScript.stringLiteral contentType]
  | none => []

/-- The type of an answer. -/
def returnType : ReturnKind → String
  | .list => "unknown[] | null"
  | .map => "Record<string, unknown> | null"
  | .unknown => "unknown"

/-- The statement that decodes the answer. -/
def returnStatement (kind : ReturnKind) : String :=
  match kind with
  | .unknown => "return decodeResponse(_response);"
  | kind => "return (await decodeResponse(_response)) as " ++ returnType kind ++ ";"

/-- The statements that carry out a plan. -/
def statements (plan : RequestPlan) (kind : ReturnKind) : List String :=
  let (queryLines, queryOptions) := queryStatements plan.queryBindings
  let (bodyLines, bodyOptions) := bodyStatements plan.body
  let options := queryOptions ++ bodyOptions ++ contentTypeOption plan.body
  let shown := if options.isEmpty then "" else ", \x7b " ++ ", ".intercalate options ++ " \x7d"
  plan.required.map requiredCheck ++ ["const _path = " ++ pathExpression plan ++ ";"] ++
    queryLines ++ bodyLines ++
    ["const _response = await this._" ++ plan.verb.lower ++ "(_path" ++ shown ++ ");",
      returnStatement kind]

/-! ### Signatures -/

/-- A parameter in a signature; one that may be left out may also be null. -/
def signaturePart (parameter : Parameter) : String :=
  if parameter.required then parameter.internal ++ ": " ++ parameter.type
  else if parameter.type = "unknown" || parameter.type.endsWith "| null" then
    parameter.internal ++ "?: " ++ parameter.type
  else parameter.internal ++ "?: " ++ parameter.type ++ " | null"

/-- The parameters of a method as text. -/
def signature (parameters : List Parameter) : String :=
  ", ".intercalate (parameters.map signaturePart)

end ApiSurface.Client
