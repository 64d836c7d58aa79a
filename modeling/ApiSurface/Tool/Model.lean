/-
This file makes the argument model of a tool: a field for each parameter that a caller gives, the schema
that advertises the arguments, and the check that they must pass, which a library for schemas makes. A
declared schema wins over the hint of the documentation. The two schemas differ where the advertised one
says more than is checked: a parameter without a known type is advertised as a text and may be anything.
-/

import ApiSurface.DocBlock.Basic
import ApiSurface.Hint.Reader
import ApiSurface.Name.Identifier
import ApiSurface.OpenApi.Dialect
import ApiSurface.Schema.Library
import ApiSurface.Tool.Basic

namespace ApiSurface

open Json (Members)

/-- A field of an argument model. -/
structure Field where
  /-- The name of the parameter. -/
  name : String
  /-- The schema that advertises it. -/
  schema : Json
  /-- The schema that values are checked against. -/
  validation : Json
  /-- Its title. -/
  title : String
  /-- What it is. -/
  description? : Option String
  /-- The value that it has when it is not given. -/
  default? : Option Json
  /-- The type that the documentation names; none for a declared schema. -/
  hinted? : Option FieldType
  deriving Repr, Inhabited

namespace Field

/-- Whether the parameter must be given. -/
def isRequired (field : Field) : Bool := field.default?.isNone

/-- Whether nothing is known about its type. -/
def isUntyped (field : Field) : Bool := field.hinted?.any FieldType.isUntyped

/-! ### Schemas -/

/-- The keyword of the definitions that references in a schema name. -/
def definitionsKey : String := "$defs"

/-- What a parameter is checked against, with the definitions that it brings along. -/
structure Basis where
  /-- The schema without its definitions. -/
  schema : Json
  /-- The schema that values are checked against. -/
  validation : Json
  /-- The definitions. -/
  definitions : Members
  /-- The type that the documentation names. -/
  hinted? : Option FieldType
  deriving Repr, Inhabited

/-- The schema of a parameter, if one with a keyword at least is declared. -/
def declaredSchema? (parameter : ToolParameter) : Option Json :=
  parameter.schema?.filter fun schema =>
    match schema with
    | .object (_ :: _) => true
    | _ => false

/-- A declared schema, whose definitions are taken out. -/
def declaredBasis (declared : Json) : Basis :=
  match OpenApi.normalize declared with
  | .object members =>
    let schema := Json.object (Members.erase members definitionsKey)
    ⟨schema, schema, ((Members.get? members definitionsKey).bind Json.asObject?).getD [], none⟩
  | schema => ⟨schema, schema, [], none⟩

/-- A schema for what the documentation says. -/
def hintedBasis (said? : Option DocBlock.Argument) : Basis :=
  let type := ((said?.bind DocBlock.Argument.typeHint).map FieldType.ofHint).getD .untyped
  ⟨type.schema, type.validationSchema, [], some type⟩

/-- What a parameter is checked against. -/
def basisOf (parameter : ToolParameter) (said? : Option DocBlock.Argument) : Basis :=
  match declaredSchema? parameter with
  | some declared => declaredBasis declared
  | none => hintedBasis said?

/-- What the documentation says about a parameter, unless that is nothing. -/
def documented? (said? : Option DocBlock.Argument) : Option String :=
  (said?.map DocBlock.Argument.description).filter fun description => !description.isEmpty

/-- The text under a key of some members. -/
def textOf? (members : Members) (key : String) : Option String :=
  (members.get? key).bind Json.asText?

/-- The description of a parameter: that of its schema, else that of the documentation. -/
def descriptionOf? (schema : Members) (said? : Option DocBlock.Argument) : Option String :=
  (textOf? schema "description").orElse fun _ => documented? said?

/-- The title of a parameter: a declared one, else that of its schema, else its name. -/
def titleOf (parameter : ToolParameter) (schema : Members) : String :=
  (parameter.title?.orElse fun _ => textOf? schema "title").getD parameter.name

/-- Puts a value under a key, if there is one. -/
def insertSome (members : Members) (key : String) : Option Json → Members
  | some value => members.insert key value
  | none => members

/-- The schema that advertises a parameter. -/
def advertised (parameter : ToolParameter) (schema : Members) (said? : Option DocBlock.Argument) :
    Members :=
  let described := insertSome schema "description" ((descriptionOf? schema said?).map .text)
  let titled := described.insert "title" (.text (titleOf parameter schema))
  insertSome titled "default" parameter.default?

/-- The schema that also allows null where null is the default. -/
def withNullDefault (parameter : ToolParameter) (validation : Json) : Json :=
  if parameter.default?.any Json.isNull then
    .object [("anyOf", .array [validation, OpenApi.nullSchema])]
  else validation

/-- The field of a parameter, with the definitions that its schema brings along. -/
def ofParameter (parameter : ToolParameter) (doc : DocBlock) : Field × Members :=
  let said? := doc.argument? parameter.name
  let basis := basisOf parameter said?
  let members := basis.schema.asObject?.getD []
  ({ name := parameter.name
     schema := .object (advertised parameter members said?)
     validation := withNullDefault parameter basis.validation
     title := titleOf parameter members
     description? := descriptionOf? members said?
     default? := parameter.default?
     hinted? := basis.hinted? }, basis.definitions)

end Field

/-! ### Models -/

/-- The argument model of a tool. -/
structure ArgumentModel where
  /-- The name of the tool. -/
  tool : String
  /-- A field for each parameter that a caller gives. -/
  fields : List Field
  /-- The definitions that references in the schemas name. -/
  definitions : Members
  /-- What is wrong with arguments. -/
  validator : Json → List SchemaError
  deriving Inhabited

namespace ArgumentModel

/-- The names of the fields that must be given. -/
def requiredNames (fields : List Field) : List String :=
  (fields.filter Field.isRequired).map Field.name

/-- The member of a schema that holds definitions, if there are any. -/
def definitionMembers (definitions : Members) : Members :=
  if definitions.isEmpty then [] else [(Field.definitionsKey, .object definitions)]

/-- The schema of an object whose members follow schemas and of which some are required; references in
it name the definitions. -/
def schemaOfMembers (properties : Members) (required : List String) (definitions : Members) : Json :=
  .object (("type", .text "object") :: ("properties", .object properties) ::
    ("required", Json.ofTexts required) :: definitionMembers definitions)

/-- The schema of an object with a member for each field. -/
def objectSchema (schema : Field → Json) (fields : List Field) (definitions : Members) : Json :=
  schemaOfMembers (Members.ofList (fields.map fun field => (field.name, schema field)))
    (requiredNames fields) definitions

/-- Whether a name is not for callers. -/
def isReservedName (name : String) : Bool :=
  name.startsWith "_" || Name.receivers.contains name

/-- The fields of parameters, after those that are there already. -/
def collectFields (doc : DocBlock) : List ToolParameter → List Field × Members →
    Except String (List Field × Members)
  | [], found => .ok found
  | parameter :: rest, (fields, definitions) =>
    if isReservedName parameter.name then
      .error s!"parameter '{parameter.name}' is reserved and cannot be exposed"
    else if fields.any fun field => field.name == parameter.name then
      .error s!"duplicate parameter '{parameter.name}'"
    else
      let (field, added) := Field.ofParameter parameter doc
      collectFields doc rest (fields ++ [field], definitions.insertAll added)

/-- Why a tool has no model when more values are bound than it has parameters. -/
def overbound (tool : Tool) : String :=
  let bound := (Json.ofNat tool.bound.length).compact
  let declared := (Json.ofNat tool.parameters.length).compact
  s!"{bound} values bound but only {declared} parameters declared"

/-- The parts of a model and the check of its arguments, or why there is none. -/
def build [SchemaLibrary] (tool : Tool) (doc : DocBlock) : Except String ArgumentModel :=
  if tool.parameters.length < tool.bound.length then .error (overbound tool)
  else do
    let (fields, definitions) ← collectFields doc tool.freeParameters ([], [])
    match SchemaLibrary.checkFor? (objectSchema Field.validation fields definitions) with
    | some validator => return ⟨tool.name, fields, definitions, validator⟩
    | none => .error "argument schema does not compile"

/-- The model of a tool. -/
def ofTool [SchemaLibrary] (tool : Tool) (doc : DocBlock) : Except ToolFault ArgumentModel :=
  (build tool doc).mapError (.configuration tool.name)

/-- The field of a name. -/
def field? (model : ArgumentModel) (name : String) : Option Field :=
  model.fields.find? fun field => field.name == name

/-- The names of the parameters that must be given. -/
def required (model : ArgumentModel) : List String :=
  requiredNames model.fields

/-- The schema that advertises the arguments. -/
def schema (model : ArgumentModel) : Json :=
  objectSchema Field.schema model.fields model.definitions

/-! ### Arguments -/

/-- The array or object that a text holds as JSON. Any other value stands for itself. -/
def decodeNested (value : Json) : Json :=
  match value with
  | .text text =>
    match Json.parse? text with
    | some (.array items) => .array items
    | some (.object members) => .object members
    | _ => value
  | _ => value

/-- Arguments in which texts that hold arrays or objects are read. -/
def decodeArguments (arguments : Members) : Members :=
  arguments.map fun (name, value) => (name, decodeNested value)

/-- The arguments of which the model has a field. -/
def known (model : ArgumentModel) (arguments : Members) : Members :=
  arguments.filter fun (name, _) => (model.field? name).isSome

/-- The arguments in the order of the fields, with defaults for those that are not given. -/
def complete (model : ArgumentModel) (arguments : Members) : Members :=
  model.fields.filterMap fun field =>
    ((arguments.get? field.name).orElse fun _ => field.default?).map fun value =>
      (field.name, value)

/-- The arguments that the tool gets, or all that is wrong with those that were given. -/
def validate (model : ArgumentModel) (arguments : Members) : Except ToolFault Members :=
  let arguments := model.known (decodeArguments arguments)
  match model.validator (.object arguments) with
  | [] => .ok (model.complete arguments)
  | errors => .error (.invalidArguments model.tool (errors.map SchemaError.message))

end ArgumentModel

end ApiSurface
