/-
This file gives clients their JSON form, in which they are stored. Every member is there, in a fixed
order; an example or marker that is missing is null.
-/

import ApiSurface.Client.Basic
import ApiSurface.DocBlock.Form
import ApiSurface.Json.Writer

namespace ApiSurface

/-- The form of a binding. -/
def Binding.toJson (binding : Binding) : Json :=
  .object [("internal", .text binding.internal), ("external", .text binding.external)]

/-- The form of bindings. -/
def Binding.listToJson (bindings : List Binding) : Json :=
  .array (bindings.map Binding.toJson)

/-- The form of the shape of a body; its kind tells the shapes apart. -/
def BodyShape.toJson : BodyShape → Json
  | .none => .object [("kind", .text "none")]
  | .multipart fields files =>
    .object [("kind", .text "multipart"), ("fields", Binding.listToJson fields),
      ("files", Binding.listToJson files)]
  | .form fields => .object [("kind", .text "form"), ("fields", Binding.listToJson fields)]
  | .jsonObject contentType fields =>
    .object [("kind", .text "json_object"), ("content_type", .text contentType),
      ("fields", Binding.listToJson fields)]
  | .jsonArray contentType parameter => single "json_array" contentType parameter
  | .jsonAny contentType parameter => single "json_any" contentType parameter
  | .raw contentType parameter => single "raw" contentType parameter
where
  /-- The form of a body that is one argument. -/
  single (kind contentType parameter : String) : Json :=
    .object [("kind", .text kind), ("content_type", .text contentType), ("param", .text parameter)]

/-- The form of a plan. -/
def RequestPlan.toJson (plan : RequestPlan) : Json :=
  .object [("verb", .text plan.verb.lower), ("path", .text plan.path),
    ("required", Json.ofTexts plan.required),
    ("path_params", Binding.listToJson plan.pathBindings),
    ("query_params", Binding.listToJson plan.queryBindings), ("body", plan.body.toJson)]

/-- The form of a parameter. -/
def Parameter.toJson (parameter : Parameter) : Json :=
  .object [("external_name", .text parameter.external), ("internal_name", .text parameter.internal),
    ("location", .text parameter.location.name), ("ts_type", .text parameter.type),
    ("schema", parameter.schema), ("type_hint", .text parameter.hint),
    ("description", .text parameter.description), ("required", .bool parameter.required),
    ("example", parameter.example?.getD .null), ("is_file", .bool parameter.isFile)]

/-- The form of a marker. -/
def PathMarker.toJson (marker : PathMarker) : Json :=
  .object [("verb", .text marker.verb.lower), ("path", .text marker.path)]

/-- The form of a method. -/
def Method.toJson (method : Method) : Json :=
  .object [("name", .text method.name), ("params", .array (method.parameters.map Parameter.toJson)),
    ("doc", method.doc.toJson), ("path_marker", (method.marker.map PathMarker.toJson).getD .null),
    ("plan", method.plan.toJson), ("return_kind", .text method.returnKind.name),
    ("signature", .text method.signature), ("return_type", .text method.returnType),
    ("body", Json.ofTexts method.body)]

namespace Client

/-- The form of a client. -/
def toJson (client : Client) : Json :=
  .object [("class_name", .text client.className), ("title", .text client.title),
    ("base_url", .text client.baseUrl), ("methods", .array (client.methods.map Method.toJson))]

/-- The text in which a client is stored. -/
def storedText (client : Client) : String :=
  client.toJson.indented ++ "\n"

end Client

end ApiSurface
