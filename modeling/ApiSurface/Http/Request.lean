/-
This file makes requests from plans and arguments, and reads the answers. A null argument counts as one
that is not given. A request is made only if every argument that it needs is given; arguments replace
the placeholders of the path, in the order of the plan, and all others travel where the plan says. An
answer is read only if its status is one of success.
-/

import ApiSurface.Client.Basic
import ApiSurface.Json.Reader
import ApiSurface.Json.Writer
import ApiSurface.Text.Blank
import ApiSurface.Text.Percent
import ApiSurface.Text.Search

namespace ApiSurface

open Json (Members)

/-- A cause for which a request is not made or has no answer. -/
inductive RequestFault where
  /-- An argument is not given. -/
  | missingParameter (name : String)
  /-- The server could not be reached. -/
  | transport (detail : String)
  /-- The server did not answer with success. -/
  | status (code : Nat) (body : String)
  /-- The answer is not JSON. -/
  | undecodable
  deriving DecidableEq, Repr, Inhabited

namespace RequestFault

/-- The text of a fault. -/
def message : RequestFault → String
  | .missingParameter name => s!"missing required parameter '{name}'"
  | .transport detail => s!"transport failure: {detail}"
  | .status code _ => s!"server answered with status {(Json.ofNat code).compact}"
  | .undecodable => "response is not valid JSON"

/-- The word for a fault. -/
def kind : RequestFault → String
  | .missingParameter _ => "missing_parameter"
  | .transport _ => "transport"
  | .status _ _ => "http_status"
  | .undecodable => "decode"

/-- Whether an argument is not given. -/
def isMissingParameter : RequestFault → Bool
  | .missingParameter _ => true
  | _ => false

/-- Whether the server could not be reached or refused. -/
def isHttp : RequestFault → Bool
  | .transport _ | .status _ _ => true
  | _ => false

end RequestFault

/-- The body of a request. -/
inductive Payload where
  | none
  | json (value : Json)
  | form (fields : Members)
  | multipart (fields files : Members)
  | raw (value : Json)
  deriving Repr, Inhabited

/-- A request. -/
structure HttpRequest where
  /-- The verb. -/
  verb : Verb
  /-- The path with all placeholders replaced. -/
  path : String
  /-- The query. -/
  query : List (String × Json)
  /-- The body. -/
  payload : Payload
  /-- The media type of the body. -/
  contentType? : Option String
  deriving Repr, Inhabited

/-- An answer. -/
structure HttpResponse where
  /-- The status. -/
  status : Nat
  /-- The body. -/
  body : String
  deriving DecidableEq, Repr, Inhabited

/-! ### Arguments -/

/-- The argument of a name, unless it is null. -/
def present? (arguments : Members) (name : String) : Option Json :=
  (arguments.get? name).filter fun value => !value.isNull

/-- The arguments that are given, under the names under which they are sent. -/
def presentBindings (arguments : Members) (bindings : List Binding) : List (String × Json) :=
  bindings.filterMap fun binding =>
    (present? arguments binding.internal).map fun value => (binding.external, value)

/-- The fields of a form or an object. -/
def fieldsOf (arguments : Members) (bindings : List Binding) : Members :=
  Members.ofList (presentBindings arguments bindings)

/-- A value as it stands in a path before it is encoded: a text as it is, all else as JSON. -/
def pathText : Json → String
  | .text text => text
  | value => value.compact

namespace RequestPlan

/-- The first needed argument that is not given. -/
def missing? (plan : RequestPlan) (arguments : Members) : Option String :=
  plan.required.find? fun name => (present? arguments name).isNone

/-- A path in which a value stands for a placeholder. -/
def replacePlaceholder (path : List Char) (name : String) (value : Json) : List Char :=
  Text.replaceAll ('\x7b' :: name.toList ++ ['\x7d'])
    (Text.percentEncode (pathText value).toList) path

/-- A path in which the arguments stand for their placeholders, one after the other. -/
def fillPath (arguments : Members) (path : List Char) :
    List Binding → Except RequestFault (List Char)
  | [] => .ok path
  | binding :: rest =>
    match present? arguments binding.internal with
    | none => .error (.missingParameter binding.internal)
    | some value => fillPath arguments (replacePlaceholder path binding.external value) rest

/-- The body that arguments make. -/
def payload (arguments : Members) : BodyShape → Payload
  | .none => .none
  | .multipart fields files => .multipart (fieldsOf arguments fields) (fieldsOf arguments files)
  | .form fields => .form (fieldsOf arguments fields)
  | .jsonObject _ fields => .json (.object (fieldsOf arguments fields))
  | .jsonArray _ parameter | .jsonAny _ parameter =>
    (present? arguments parameter).elim .none .json
  | .raw _ parameter => (present? arguments parameter).elim .none .raw

/-- The request that arguments make. -/
def request (plan : RequestPlan) (arguments : Members) : Except RequestFault HttpRequest :=
  match plan.missing? arguments with
  | some name => .error (.missingParameter name)
  | none => do
    let path ← fillPath arguments plan.path.toList plan.pathBindings
    return {
      verb := plan.verb
      path := String.ofList path
      query := presentBindings arguments plan.queryBindings
      payload := payload arguments plan.body
      contentType? := plan.body.contentType? }

end RequestPlan

/-! ### Answers -/

/-- What an answer says: nothing if it has no content, else a JSON value. -/
def HttpResponse.decode (response : HttpResponse) : Except RequestFault Json :=
  if response.status < 200 || 300 ≤ response.status then
    .error (.status response.status response.body)
  else if response.status = 204 || (Text.trim response.body.toList).isEmpty then .ok .null
  else
    match Json.parse? response.body with
    | some value => .ok value
    | none => .error .undecodable

/-- What carries requests to a server. -/
abbrev Transport := HttpRequest → Except RequestFault HttpResponse

namespace Transport

/-- Sends a request and reads the answer. -/
def exchange (transport : Transport) (request : HttpRequest) : Except RequestFault Json :=
  (transport request).bind HttpResponse.decode

/-- Reaches no server. -/
def detached : Transport := fun request =>
  .error (.transport s!"no transport configured for {request.verb.upper} {request.path}")

end Transport

end ApiSurface
