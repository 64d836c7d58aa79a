/-
This file makes the method for an operation. Every parameter gets a name of its own: first those of the
path, then those of the query, then those of the body. In the signature the parameters that must be
given come first, and otherwise that order is kept.
-/

import ApiSurface.Client.Documentation
import ApiSurface.Client.Statement
import ApiSurface.Hint.Writer
import ApiSurface.Name.Allocator

namespace ApiSurface.Client

open Name (Allocator)

/-! ### Parameters -/

/-- The type of a parameter in the signature. -/
def parameterType (raw : Operation.Parameter) : String :=
  if raw.isFile && raw.schema.textAt? "type" != some "array" then "Blob"
  else TypeScript.ofSchema raw.schema

/-- A declared parameter under a name of its own. -/
def named (internal : String) (location : Location) (raw : Operation.Parameter) : Parameter where
  external := raw.name
  internal := internal
  location := location
  type := parameterType raw
  schema := raw.schema
  hint := Hint.ofParameter raw.schema raw.isFile
  description := raw.description
  required := raw.required
  example? := raw.example?
  isFile := raw.isFile

/-- Gives each declared parameter a name of its own. -/
def nameAll (location : Location) (names : Allocator) :
    List Operation.Parameter → Except Fault (List Parameter × Allocator)
  | [] => .ok ([], names)
  | raw :: rest => do
    let (internal, names) ← names.claim (Name.sanitize raw.name) location
    let (others, names) ← nameAll location names rest
    return (named internal location raw :: others, names)

/-- The binding of a parameter. -/
def bindingOf (parameter : Parameter) : Binding :=
  ⟨parameter.internal, parameter.external⟩

/-! ### Bodies -/

/-- The declared parameters of a body. -/
def bodyParameters : Operation.Body → List Operation.Parameter
  | .none => []
  | .multipart fields files => fields ++ files
  | .form fields | .jsonObject _ fields => fields
  | .jsonArray _ parameter | .jsonAny _ parameter | .raw _ parameter => [parameter]

/-- The name of the only parameter of a body. -/
def onlyName (parameters : List Parameter) : String :=
  (parameters.head?.map Parameter.internal).getD ""

/-- The shape of a body whose parameters have got their names. -/
def shapeOf (body : Operation.Body) (parameters : List Parameter) : BodyShape :=
  match body with
  | .none => .none
  | .multipart fields _ =>
    .multipart ((parameters.take fields.length).map bindingOf)
      ((parameters.drop fields.length).map bindingOf)
  | .form _ => .form (parameters.map bindingOf)
  | .jsonObject contentType _ => .jsonObject contentType (parameters.map bindingOf)
  | .jsonArray contentType _ => .jsonArray contentType (onlyName parameters)
  | .jsonAny contentType _ => .jsonAny contentType (onlyName parameters)
  | .raw contentType _ => .raw contentType (onlyName parameters)

/-! ### Methods -/

/-- The parameters that must be given, and after them the others. -/
def requiredFirst (parameters : List Parameter) : List Parameter :=
  parameters.filter (fun parameter => parameter.required) ++
    parameters.filter fun parameter => !parameter.required

/-- Makes the method for an operation. -/
def buildMethod (operation : ExtractedOperation) : Except Fault Method := do
  let (inPath, names) ← nameAll .path .forParameters operation.pathParameters
  let (inQuery, names) ← nameAll .query names operation.queryParameters
  let (inBody, _) ← nameAll .body names (bodyParameters operation.body)
  let parameters := requiredFirst (inPath ++ inQuery ++ inBody)
  let plan : RequestPlan := {
    verb := operation.verb
    path := operation.path
    required := (parameters.filter fun parameter => parameter.required).map Parameter.internal
    pathBindings := inPath.map bindingOf
    queryBindings := inQuery.map bindingOf
    body := shapeOf operation.body inBody }
  return {
    name := Name.ofOperation operation.identifier operation.verb operation.path
    parameters
    doc := documentation operation parameters
    marker := some ⟨operation.verb, operation.path⟩
    plan
    returnKind := operation.returnKind
    signature := signature parameters
    returnType := returnType operation.returnKind
    body := statements plan operation.returnKind }

end ApiSurface.Client
