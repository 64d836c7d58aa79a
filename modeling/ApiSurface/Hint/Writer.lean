/-
This file describes a schema in the words of documentation: a type, a list of a type in the plural, a
file, or any.
-/

import ApiSurface.Json.Value
import ApiSurface.TypeScript.Type

namespace ApiSurface.Hint

open Json (Members)

/-- The plural of a hint; every list is just one of lists. -/
def plural (hint : String) : String :=
  if hint.startsWith "list" then "lists" else hint ++ "s"

/-- The types whose hint is their name. -/
def namedTypes : List String := ["string", "integer", "number", "boolean", "object"]

/-- The hint of an array whose items have a hint. -/
def ofItems (item : String) : String :=
  if item = "any" then "list" else "list of " ++ plural item

/-- The hint of a schema that is not a file. -/
def ofSchema (schema : Json) : String :=
  match schema with
  | .object members =>
    match (members.lookup "type").bind Json.asText? with
    | some "array" =>
      match found : members.lookup "items" with
      | some items =>
        have : sizeOf items < 1 + sizeOf members := by
          have := Members.sizeOf_get? found
          omega
        ofItems (ofSchema items)
      | none => "list"
    | some name => if namedTypes.contains name then name else "any"
    | none => if Members.contains members "properties" then "object" else "any"
  | _ => "any"
termination_by sizeOf schema

/-- The hint of a parameter with a schema. -/
def ofParameter (schema : Json) (isFile : Bool) : String :=
  if isFile then (if schema.textAt? "type" = some "array" then "list of files" else "file")
  else ofSchema schema

end ApiSurface.Hint
