/-
This file describes tools: what can be called by name with arguments, and what it does with them. Some
leading parameters may be bound to values already; a caller sees the other ones only.
-/

import ApiSurface.Tool.Fault

namespace ApiSurface

open Json (Members)

/-- A parameter of a tool. -/
structure ToolParameter where
  /-- Its name. -/
  name : String
  /-- The schema that is declared for its values. -/
  schema? : Option Json := none
  /-- The value that it has when it is not given. -/
  default? : Option Json := none
  /-- Its title. -/
  title? : Option String := none
  deriving Repr, Inhabited

/-- What a tool does once it has its arguments. -/
inductive Action where
  /-- It ends with a value or a fault. -/
  | finish (result : Except ToolFault Json)
  /-- It sends a request and ends with what the answer says. -/
  | send (request : HttpRequest)
  deriving Inhabited

namespace Action

/-- How an action ends when requests travel a given way. -/
def run (transport : Transport) : Action → Except ToolFault Json
  | .finish result => result
  | .send request => (transport.exchange request).mapError .request

/-- The requests that an action sends. -/
def requests : Action → List HttpRequest
  | .finish _ => []
  | .send request => [request]

end Action

/-- A tool. -/
structure Tool where
  /-- Its name. -/
  name : String
  /-- Its documentation block as text. -/
  doc : String
  /-- Its parameters. -/
  parameters : List ToolParameter
  /-- The schema that is declared for its result. -/
  returns? : Option Json
  /-- The values of the leading parameters. -/
  bound : List Json
  /-- What it does with its arguments. -/
  handler : Members → Action
  deriving Inhabited

namespace Tool

/-- The leading parameters with the values that they are bound to. -/
def boundArguments (tool : Tool) : List (String × Json) :=
  tool.parameters.zipWith (fun parameter value => (parameter.name, value)) tool.bound

/-- The parameters that a caller gives. -/
def freeParameters (tool : Tool) : List ToolParameter :=
  tool.parameters.drop tool.bound.length

end Tool

end ApiSurface
