/-
This file sorts out what an operation takes and gives: its parameters by the place in which they
travel, its body, and its answer. An operation that depends on a reference that leads nowhere, or that
declares a parameter without a name, cannot be called.
-/

import ApiSurface.Operation.Basic
import ApiSurface.Operation.Body

namespace ApiSurface

open Json (Members)

/-- An operation with its parameters sorted out. -/
structure ExtractedOperation where
  /-- The path, with placeholders. -/
  path : String
  /-- The verb. -/
  verb : Verb
  /-- The identifier that the document gives it. -/
  identifier : Option String
  /-- What it does, in short. -/
  summary : String
  /-- What it does, at length. -/
  description : String
  /-- Its tags. -/
  tags : List String
  /-- The parameters in its path. -/
  pathParameters : List Operation.Parameter
  /-- The parameters in its query. -/
  queryParameters : List Operation.Parameter
  /-- Its body. -/
  body : Operation.Body
  /-- What kind of value it answers. -/
  returnKind : ReturnKind
  /-- What it answers. -/
  returnsDescription : String
  deriving Repr, Inhabited

namespace Operation

/-- The text under a key, without blanks around it. -/
def textField (members : Members) (key : String) : String :=
  String.ofList (Text.trim (((members.get? key).bind Json.asText?).getD "").toList)

/-- The first reference that leads nowhere in what an operation says or in its parameters. -/
def unresolved? (operation : Operation) : Option String :=
  match (operation.raw.get? OpenApi.unresolvedKey).bind Json.asText? with
  | some reference => some reference
  | none =>
    (OpenApi.findUnresolvedMember? operation.raw).orElse fun _ =>
      OpenApi.findUnresolvedItem? operation.parameters

/-! ### Parameters -/

/-- Sorts declarations into those of the path and those of the query, and leaves out the others. A
parameter in the path must always be given. -/
def sortParameters (label : String) :
    List Json → Except Fault (List Parameter × List Parameter)
  | [] => .ok ([], [])
  | declaration :: rest =>
    match declaration.textAt? "name" with
    | none => .error (.invalidSchema label "parameter without a name")
    | some name => do
      let (inPath, inQuery) ← sortParameters label rest
      let parameter := Parameter.ofDeclaration name declaration
      match declaration.textAt? "in" with
      | some "path" => return ({ parameter with required := true } :: inPath, inQuery)
      | some "query" => return (inPath, parameter :: inQuery)
      | _ => return (inPath, inQuery)

/-! ### Answers -/

/-- The answer of success: the first with a status that starts with 2, or else the default one. -/
def response? (raw : Members) : Option Json := do
  let responses ← (← raw.get? "responses").asObject?
  match responses.find? fun (status, _) => status.startsWith "2" with
  | some (_, response) => some response
  | none => responses.lookup "default"

/-- The schema of an answer in JSON. -/
def responseSchema? (response : Json) : Option Json := do
  let content ← (← response.get? "content").asObject?
  let (_, media) ← content.find? fun (written, _) => Body.isJson written
  media.get? "schema"

/-- The kind of the values that a schema allows. -/
def returnKindOf (schema : Json) : ReturnKind :=
  match schema.textAt? "type" with
  | some "array" => .list
  | some "object" => .map
  | some _ => .unknown
  | none =>
    if (schema.get? "properties").isSome || (schema.get? "additionalProperties").isSome then .map
    else .unknown

/-- The kind and the description of the answer of success. -/
def returnsOf (raw : Members) : ReturnKind × String :=
  match response? raw with
  | none => (.unknown, "")
  | some response =>
    let description := (response.textAt? "description").getD ""
    ((responseSchema? response).elim .unknown returnKindOf,
      String.ofList (Text.trim description.toList))

/-! ### Operations -/

/-- Sorts out an operation. -/
def extract (operation : Operation) : Except Fault ExtractedOperation :=
  match operation.unresolved? with
  | some reference => .error (.unresolvedReference operation.label reference)
  | none => do
    let (inPath, inQuery) ← sortParameters operation.label operation.parameters
    let (returnKind, returnsDescription) := returnsOf operation.raw
    return {
      path := operation.path
      verb := operation.verb
      identifier := operation.identifier?
      summary := textField operation.raw "summary"
      description := textField operation.raw "description"
      tags := TypeScript.textsAt operation.raw "tags"
      pathParameters := inPath
      queryParameters := inQuery
      body := Body.ofOperation operation.raw
      returnKind
      returnsDescription }

end Operation

end ApiSurface
