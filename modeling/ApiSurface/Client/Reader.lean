/-
This file reads clients back from their JSON form. A record is an object with its members by name, of
which those that are not known are passed over, or an array with all of its members in order. No member
is given twice; only a marker, a type hint or an example may be missing. A value inside a record that
can be anything is kept as it is.
-/

import ApiSurface.Client.Form
import ApiSurface.Json.Reader

namespace ApiSurface

namespace Json

/-- The only member with a key, if there is any; fails when there are several. -/
def onlyMember? (members : List (String × Json)) (key : String) : Option (Option Json) :=
  match members.filter fun member => member.1 == key with
  | [] => some none
  | [(_, value)] => some (some value)
  | _ => none

/-- The members of a record with the given names. -/
def record? (names : List String) : Json → Option (List (Option Json))
  | .object members => names.mapM (onlyMember? members)
  | .array items => if items.length = names.length then some (items.map some) else none
  | _ => none

/-- The name of a variant: a text, or an object with null under the name. -/
def variant? : Json → Option String
  | .text name => some name
  | .object [(name, .null)] => some name
  | _ => none

/-- The items of an array, each of them read. -/
def listOf? {α : Type} (read : Json → Option α) (value : Json) : Option (List α) := do
  (← value.asArray?).mapM read

/-- A text that may be missing or null. -/
def optionalText? : Option Json → Option (Option String)
  | none | some .null => some none
  | some (.text value) => some (some value)
  | _ => none

end Json

open Json

namespace DocBlock

/-- Reads an argument. -/
def Argument.ofJson? (value : Json) : Option Argument := do
  let [some name, some description, hint] ← record? ["name", "description", "type_hint"] value
    | none
  return ⟨← name.asText?, ← description.asText?, ← optionalText? hint⟩

/-- Reads a failure. -/
def Failure.ofJson? (value : Json) : Option Failure := do
  let [some kind, some description] ← record? ["kind", "description"] value | none
  return ⟨← kind.asText?, ← description.asText?⟩

/-- Reads a documentation block. -/
def ofJson? (value : Json) : Option DocBlock := do
  let [some summary, some arguments, some returns, some failures, some tags] ←
    record? ["summary", "args", "returns", "raises", "tags"] value | none
  return {
    summary := ← summary.asText?
    arguments := ← listOf? Argument.ofJson? arguments
    returns := ← returns.asText?
    failures := ← listOf? Failure.ofJson? failures
    tags := ← listOf? asText? tags }

end DocBlock

/-- Reads a binding. -/
def Binding.ofJson? (value : Json) : Option Binding := do
  let [some internal, some external] ← record? ["internal", "external"] value | none
  return ⟨← internal.asText?, ← external.asText?⟩

namespace BodyShape

/-- Reads the members of a shape by its kind. -/
def ofKind? (kind : String) (value : Json) : Option BodyShape :=
  match kind with
  | "none" =>
    match value with
    | .array (_ :: _) => Option.none
    | _ => some .none
  | "multipart" => do
    let [some fields, some files] ← record? ["fields", "files"] value | Option.none
    return .multipart (← listOf? Binding.ofJson? fields) (← listOf? Binding.ofJson? files)
  | "form" => do
    let [some fields] ← record? ["fields"] value | Option.none
    return .form (← listOf? Binding.ofJson? fields)
  | "json_object" => do
    let [some contentType, some fields] ← record? ["content_type", "fields"] value | Option.none
    return .jsonObject (← contentType.asText?) (← listOf? Binding.ofJson? fields)
  | "json_array" => single .jsonArray
  | "json_any" => single .jsonAny
  | "raw" => single .raw
  | _ => Option.none
where
  /-- Reads a body that is one argument. -/
  single (shape : String → String → BodyShape) : Option BodyShape := do
    let [some contentType, some parameter] ← record? ["content_type", "param"] value | Option.none
    return shape (← contentType.asText?) (← parameter.asText?)

/-- Reads the shape of a body. In an array its kind comes first. -/
def ofJson? : Json → Option BodyShape
  | .object members => do
    let kind ← (← onlyMember? members "kind")
    ofKind? (← kind.asText?) (.object (members.filter fun member => member.1 != "kind"))
  | .array (.text kind :: rest) => ofKind? kind (.array rest)
  | _ => Option.none

end BodyShape

/-- Reads a verb in small letters. -/
def Verb.ofJson? (value : Json) : Option Verb := do
  let name ← variant? value
  Verb.all.find? fun verb => verb.lower == name

/-- Reads the place of a parameter. -/
def Location.ofJson? (value : Json) : Option Location := do
  let name ← variant? value
  [Location.path, .query, .body].find? fun location => location.name == name

/-- Reads a kind of answer. -/
def ReturnKind.ofJson? (value : Json) : Option ReturnKind :=
  (variant? value).bind ReturnKind.ofName?

/-- Reads a plan. -/
def RequestPlan.ofJson? (value : Json) : Option RequestPlan := do
  let [some verb, some path, some required, some inPath, some inQuery, some body] ←
    record? ["verb", "path", "required", "path_params", "query_params", "body"] value | none
  return {
    verb := ← Verb.ofJson? verb
    path := ← path.asText?
    required := ← listOf? asText? required
    pathBindings := ← listOf? Binding.ofJson? inPath
    queryBindings := ← listOf? Binding.ofJson? inQuery
    body := ← BodyShape.ofJson? body }

/-- An example that may be missing; null counts as missing. -/
def Parameter.exampleOf : Option Json → Option Json
  | none | some .null => none
  | some value => some (withoutRepeats value)

/-- Reads a parameter. -/
def Parameter.ofJson? (value : Json) : Option Parameter := do
  let [some external, some internal, some location, some type, some schema, some hint,
      some description, some required, example_, some isFile] ←
    record? ["external_name", "internal_name", "location", "ts_type", "schema", "type_hint",
      "description", "required", "example", "is_file"] value | none
  return {
    external := ← external.asText?
    internal := ← internal.asText?
    location := ← Location.ofJson? location
    type := ← type.asText?
    schema := withoutRepeats schema
    hint := ← hint.asText?
    description := ← description.asText?
    required := ← required.asBool?
    example? := Parameter.exampleOf example_
    isFile := ← isFile.asBool? }

/-- Reads a marker. -/
def PathMarker.ofJson? (value : Json) : Option PathMarker := do
  let [some verb, some path] ← record? ["verb", "path"] value | none
  return ⟨← Verb.ofJson? verb, ← path.asText?⟩

/-- Reads a marker that may be missing or null. -/
def PathMarker.optional? : Option Json → Option (Option PathMarker)
  | none | some .null => some none
  | some value => (PathMarker.ofJson? value).map some

/-- Reads a method. -/
def Method.ofJson? (value : Json) : Option Method := do
  let [some name, some parameters, some doc, marker, some plan, some returnKind, some signature,
      some returnType, some body] ←
    record? ["name", "params", "doc", "path_marker", "plan", "return_kind", "signature",
      "return_type", "body"] value | none
  return {
    name := ← name.asText?
    parameters := ← listOf? Parameter.ofJson? parameters
    doc := ← DocBlock.ofJson? doc
    marker := ← PathMarker.optional? marker
    plan := ← RequestPlan.ofJson? plan
    returnKind := ← ReturnKind.ofJson? returnKind
    signature := ← signature.asText?
    returnType := ← returnType.asText?
    body := ← listOf? asText? body }

namespace Client

/-- Reads a client. -/
def ofJson? (value : Json) : Option Client := do
  let [some className, some title, some baseUrl, some methods] ←
    record? ["class_name", "title", "base_url", "methods"] value | none
  return {
    className := ← className.asText?
    title := ← title.asText?
    baseUrl := ← baseUrl.asText?
    methods := ← listOf? Method.ofJson? methods }

/-- Reads the text in which a client is stored; `path` names it in messages. -/
def parseStored (path text : String) : Except Fault Client :=
  match (readWritten? text).bind ofJson? with
  | some client => .ok client
  | none => .error (.serialization s!"invalid client IR in {path}")

end Client

end ApiSurface
