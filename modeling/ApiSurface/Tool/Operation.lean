/-
This file offers the methods of a client as tools. A tool has the parameters of its method; those that
need not be given have a default, and null where their schema names none. Calling it sends the request
that the plan of the method makes of the arguments.
-/

import ApiSurface.DocBlock.Printer
import ApiSurface.Tool.Registry

namespace ApiSurface

namespace Tool

/-- The parameter of a tool for one of a method. -/
def parameterOf (parameter : Parameter) : ToolParameter :=
  { name := parameter.internal
    schema? := match parameter.schema with
      | .object (_ :: _) => some parameter.schema
      | _ => none
    default? :=
      if parameter.required then none else some ((parameter.schema.get? "default").getD .null) }

/-- What a plan does with arguments. -/
def actionOf (plan : RequestPlan) (arguments : Json.Members) : Action :=
  match plan.request arguments with
  | .ok request => .send request
  | .error fault => .finish (.error (.request fault))

/-- The tool for a method. -/
def ofMethod (method : Method) : Tool where
  name := method.name
  doc := method.doc.render
  parameters := method.parameters.map parameterOf
  returns? := none
  bound := []
  handler := actionOf method.plan

/-- The tools for the methods of a client. -/
def ofClient (client : Client) : List Tool :=
  client.methods.map ofMethod

end Tool

/-- The tools for the methods of a client, without those that cannot be made. -/
def ToolRegistry.ofClient [SchemaLibrary] (client : Client) : ToolRegistry :=
  (Tool.ofClient client).foldl registerOrSkip empty

end ApiSurface
