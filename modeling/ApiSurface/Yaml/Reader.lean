/-
This file reads a YAML text as a JSON value. A key that is no text becomes one: numbers, truth values
and null as they are printed, anything else in block form. A tag is dropped, and a number that JSON
cannot hold is null.
-/

import ApiSurface.Yaml.Block

namespace ApiSurface.Yaml

/-- The text that stands for a key. -/
def keyText : Yaml → String
  | .text value => value
  | .number value => String.ofList value.text
  | .bool true => "true"
  | .bool false => "false"
  | .null => "null"
  | value => blockText value

/-- The number that JSON holds. -/
def Number.toJson : Number → Json
  | .int value => .number (.int value)
  | .double value => .number (.double value)
  | _ => .null

mutual

/-- The JSON value of a YAML value. -/
def toJson : Yaml → Json
  | .null => .null
  | .bool value => .bool value
  | .number value => value.toJson
  | .text value => .text value
  | .sequence items => .array (itemsToJson items)
  | .mapping entries => .object (Json.Members.ofList (entriesToJson entries))
  | .tagged _ value => toJson value

/-- The JSON values of items. -/
def itemsToJson : List Yaml → List Json
  | [] => []
  | item :: rest => toJson item :: itemsToJson rest

/-- The JSON members of entries. -/
def entriesToJson : List (Yaml × Yaml) → List (String × Json)
  | [] => []
  | (key, value) :: rest => (keyText key, toJson value) :: entriesToJson rest

end

/-- The JSON value that a YAML text stands for. -/
def parse? (text : String) : Option Json := do
  return ((← ofNode? (← documentOf? (← tokens? text.toList)))).toJson

end ApiSurface.Yaml
