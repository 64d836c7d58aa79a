/-
This file writes the type of TypeScript that a schema stands for, on one line. An object with known
properties becomes an object type, a string with binary content a blob, and a string of which only some
values are allowed the union of these values.
-/

import ApiSurface.Json.Value
import ApiSurface.TypeScript.Literal

namespace ApiSurface.TypeScript

open Json (Members)

/-- The type of the values of a JSON type whose inner structure is not known. -/
def ofJsonType (name : String) : String :=
  match name with
  | "string" => "string"
  | "number" | "integer" => "number"
  | "boolean" => "boolean"
  | "array" => "unknown[]"
  | "object" => "Record<string, unknown>"
  | "null" => "null"
  | _ => "unknown"

/-- Whether a schema is that of a string with binary content. -/
def isBinary (schema : Json) : Bool :=
  schema.textAt? "type" == some "string" &&
    (schema.textAt? "format" == some "binary" || schema.textAt? "format" == some "base64")

/-- The texts in the list under a key; other values in it do not count. -/
def textsAt (members : Members) (key : String) : List String :=
  (((members.get? key).bind Json.asArray?).getD []).filterMap Json.asText?

/-- The union of string literals that an enumeration of texts stands for. -/
def literalUnion? (members : Members) : Option String :=
  match members.get? "enum" with
  | some (.array (first :: rest)) =>
    ((first :: rest).mapM Json.asText?).map fun texts => " | ".intercalate (texts.map stringLiteral)
  | _ => none

/-- The type of an array whose items have the given type. -/
def arrayOf (item : String) : String :=
  if item.toList.contains ' ' then "Array<" ++ item ++ ">" else item ++ "[]"

/-- The object type with the given fields. -/
def objectOf (fields : List String) : String :=
  if fields.isEmpty then "Record<string, unknown>" else "\x7b " ++ "; ".intercalate fields ++ " \x7d"

/-- The type with null added to it if the schema is nullable. -/
def withNull (members : Members) (base : String) : String :=
  if (members.get? "nullable").bind Json.asBool? = some true && base != "unknown" then
    base ++ " | null"
  else base

mutual

/-- The type that a schema stands for. -/
def ofSchema (schema : Json) : String :=
  match schema with
  | .object members =>
    if isBinary (.object members) then "Blob"
    else
      let name := ((members.lookup "type").bind Json.asText?).getD "unknown"
      let base :=
        if (name = "object" || name = "unknown") && Members.contains members "properties" then
          match found : members.lookup "properties" with
          | some (.object properties) =>
            have : sizeOf properties < 1 + sizeOf members := by
              have := Members.sizeOf_get? found
              simp only [Json.object.sizeOf_spec] at this
              omega
            objectOf (fieldsOf (textsAt members "required") properties)
          | _ => objectOf []
        else if name = "array" then
          match found : members.lookup "items" with
          | some items =>
            have : sizeOf items < 1 + sizeOf members := by
              have := Members.sizeOf_get? found
              omega
            arrayOf (ofSchema items)
          | none => "unknown[]"
        else if name = "string" then (literalUnion? members).getD "string"
        else ofJsonType name
      withNull members base
  | _ => "unknown"
termination_by sizeOf schema

/-- The fields of an object type; one that is not required has a question mark. -/
def fieldsOf (required : List String) (properties : List (String × Json)) : List String :=
  match properties with
  | [] => []
  | (name, property) :: rest =>
    (propertyKey name ++ (if required.contains name then "" else "?") ++ ": " ++
      ofSchema property) :: fieldsOf required rest
termination_by sizeOf properties

end

end ApiSurface.TypeScript
