/-
This file brings the schemas of API documents into the form that a validator understands. Documents
mark a strict bound by a flag beside the bound and a value that may be null by a flag of its own; a
validator knows neither, so the flag takes the bound's value in the one case and becomes a further type
in the other. Only schemas are changed: examples, defaults and the members of an enumeration are not.
-/

import ApiSurface.Json.Value

namespace ApiSurface.OpenApi

open Json (Members)

/-! ### Where schemas stand -/

/-- The keywords under which a schema or a list of schemas stands. -/
def schemaKeywords : List String :=
  ["items", "additionalProperties", "not", "contains", "propertyNames", "if", "then", "else",
    "unevaluatedItems", "unevaluatedProperties", "allOf", "anyOf", "oneOf", "prefixItems"]

/-- The keywords under which schemas stand by name. -/
def schemaTableKeywords : List String :=
  ["properties", "patternProperties", "dependentSchemas", "$defs", "definitions"]

/-! ### Strict bounds -/

/-- Replaces the flag of a strict bound: a true one takes the bound, a false one goes away. -/
def withStrictBound (strict bound : String) (members : Members) : Members :=
  match members.get? strict with
  | some (.bool flag) =>
    let unflagged := members.erase strict
    match flag, unflagged.get? bound with
    | true, some limit => (unflagged.erase bound).insert strict limit
    | _, _ => unflagged
  | _ => members

/-! ### Null -/

/-- What describes a schema without restricting it. -/
def annotations : List String := ["title", "description", "default", "examples", "deprecated"]

/-- Moves those of the annotations that there are from the first list of members to the end of the
second. -/
def moveAnnotations (schema outer : Members) : Members × Members :=
  annotations.foldl
    (fun (schema, outer) annotation =>
      match schema.get? annotation with
      | some value => (schema.erase annotation, Members.insert outer annotation value)
      | none => (schema, outer))
    (schema, outer)

/-- The schema of null. -/
def nullSchema : Json := .object [("type", .text "null")]

/-- A schema of the values that another one allows, and of null. -/
def orNull (members : Members) : Members :=
  let (schema, outer) := moveAnnotations members []
  outer.insert "anyOf" (.array [.object schema, nullSchema])

/-- Adds null to an enumeration that lacks it. -/
def withNullListed (members : Members) : Members :=
  match members.get? "enum" with
  | some (.array values) =>
    if values.any Json.isNull then members
    else members.insert "enum" (.array (values ++ [.null]))
  | _ => members

/-- Adds null to the types of a schema. A schema that names no type becomes one of two. -/
def withNullType (members : Members) : Members :=
  match members.get? "type" with
  | some (.text name) => members.insert "type" (Json.ofTexts [name, "null"])
  | some (.array types) =>
    if types.any fun type => type.asText? == some "null" then members
    else members.insert "type" (.array (types ++ [.text "null"]))
  | _ => orNull members

/-- Replaces the flag that says whether null is allowed. -/
def withNullable (members : Members) : Members :=
  match members.get? "nullable" with
  | none => members
  | some flag =>
    let unflagged := members.erase "nullable"
    if flag.asBool? = some true then withNullType (withNullListed unflagged) else unflagged

/-- Replaces the flags of one schema. -/
def withoutFlags (members : Members) : Members :=
  withNullable
    (withStrictBound "exclusiveMaximum" "maximum"
      (withStrictBound "exclusiveMinimum" "minimum" members))

/-! ### All schemas -/

mutual

/-- Replaces the flags of a schema and of all schemas in it. -/
def normalize : Json → Json
  | .object members => .object (withoutFlags (normalizeMembers members))
  | other => other

/-- Replaces the flags of a schema or of each schema of a list. -/
def normalizeListed : Json → Json
  | .array schemas => .array (normalizeItems schemas)
  | .object members => .object (withoutFlags (normalizeMembers members))
  | other => other

/-- Replaces the flags of each schema of a table. -/
def normalizeNamed : Json → Json
  | .object table => .object (normalizeTable table)
  | other => other

/-- Replaces the flags of each schema of a list. -/
def normalizeItems : List Json → List Json
  | [] => []
  | schema :: rest => normalize schema :: normalizeItems rest

/-- Replaces the flags of the schema under each name. -/
def normalizeTable : List (String × Json) → List (String × Json)
  | [] => []
  | (name, schema) :: rest => (name, normalize schema) :: normalizeTable rest

/-- Replaces the flags of the schemas that stand under the keywords of a schema. -/
def normalizeMembers : List (String × Json) → List (String × Json)
  | [] => []
  | (keyword, value) :: rest =>
    let value :=
      if schemaKeywords.contains keyword then normalizeListed value
      else if schemaTableKeywords.contains keyword then normalizeNamed value
      else value
    (keyword, value) :: normalizeMembers rest

end

end ApiSurface.OpenApi
