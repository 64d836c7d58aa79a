/-
This file describes tools to those who may call them: a name, a summary, the schemas of arguments and
result, and tags. A descriptor has a form for each of the protocols in which tools are offered; all of
them say the same.
-/

import ApiSurface.Text.Line
import ApiSurface.Tool.Model

namespace ApiSurface

/-- What a caller learns about a tool. -/
structure ToolDescriptor where
  /-- Its name. -/
  name : String
  /-- What it does. -/
  summary : String
  /-- The schema of its arguments. -/
  argumentSchema : Json
  /-- The schema of its result, if that is known. -/
  outputSchema? : Option Json
  /-- Its tags. -/
  tags : List String
  deriving Repr, Inhabited

namespace ToolDescriptor

/-- The schema that the documentation of a result names before a colon. -/
def hintedOutput? (returns : String) : Option Json :=
  (Text.splitFirst? [':'] returns.toList).bind fun (hint, _) =>
    let type := FieldType.ofHintChars hint
    if type.isUntyped then none else some type.schema

/-- The descriptor of a tool. -/
def ofTool (tool : Tool) (model : ArgumentModel) (doc : DocBlock) : ToolDescriptor where
  name := tool.name
  summary := doc.summary
  argumentSchema := model.schema
  outputSchema? := tool.returns?.orElse fun _ => hintedOutput? doc.returns
  tags := doc.tags

/-- The first paragraph of the summary on one line. -/
def shortDescription (descriptor : ToolDescriptor) : String :=
  Text.firstParagraph descriptor.summary

/-! ### Forms -/

/-- A member for a schema, if there is one. -/
def schemaMember (key : String) (schema? : Option Json) : Json.Members :=
  (schema?.map fun schema => (key, schema)).toList

/-- The descriptor as a value. -/
def toJson (descriptor : ToolDescriptor) : Json :=
  .object ([("name", .text descriptor.name), ("summary", .text descriptor.summary),
    ("argument_schema", descriptor.argumentSchema)] ++
    schemaMember "output_schema" descriptor.outputSchema? ++
    [("tags", Json.ofTexts descriptor.tags)])

/-- The form of a function that a model may call. -/
def functionForm (descriptor : ToolDescriptor) : Json :=
  .object [("type", .text "function"), ("function", .object
    [("name", .text descriptor.name), ("description", .text descriptor.summary),
      ("parameters", descriptor.argumentSchema)])]

/-- A schema where only an object may stand. -/
def objectOnly (schema : Json) : Json :=
  .object (schema.asObject?.getD [])

/-- The form of a tool of the model context protocol, which knows results that are objects only. -/
def contextForm (descriptor : ToolDescriptor) : Json :=
  let output := descriptor.outputSchema?.filter fun schema => schema.textAt? "type" == some "object"
  .object ([("name", .text descriptor.name), ("description", .text descriptor.summary),
    ("inputSchema", objectOnly descriptor.argumentSchema)] ++
    schemaMember "outputSchema" (output.map objectOnly))

/-- The form of a tool of which only the input has a schema. -/
def inputForm (descriptor : ToolDescriptor) : Json :=
  .object [("name", .text descriptor.name), ("description", .text descriptor.summary),
    ("input_schema", descriptor.argumentSchema)]

/-- The form of a tool that also says how its faults are handled. -/
def structuredForm (descriptor : ToolDescriptor) : Json :=
  .object ([("name", .text descriptor.name), ("description", .text descriptor.summary),
    ("args_schema", descriptor.argumentSchema)] ++
    schemaMember "return_schema" descriptor.outputSchema? ++
    [("tags", Json.ofTexts descriptor.tags), ("handle_tool_error", .bool true)])

end ToolDescriptor

end ApiSurface
