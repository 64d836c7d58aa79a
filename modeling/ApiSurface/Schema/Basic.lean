/-
This file holds schemas once they are read: a list of rules that a value has to satisfy, in the order in
which they were written. A rule holds everything it depends on, also where that stands under another
keyword of the schema, so a value can be checked rule by rule.
-/

import ApiSurface.Json.Value

namespace ApiSurface

namespace Schema

/-- The name of a type of values. -/
inductive TypeName where
  | array
  | boolean
  | integer
  | null
  | number
  | object
  | string
  deriving DecidableEq, Repr, Inhabited

namespace TypeName

/-- All names in alphabetical order. -/
def all : List TypeName := [.array, .boolean, .integer, .null, .number, .object, .string]

/-- The name as a schema writes it. -/
def name : TypeName → String
  | .array => "array"
  | .boolean => "boolean"
  | .integer => "integer"
  | .null => "null"
  | .number => "number"
  | .object => "object"
  | .string => "string"

/-- The type that a name stands for. -/
def ofName? (name : String) : Option TypeName :=
  all.find? fun type => type.name == name

end TypeName

/-- The bounds that a number may have. -/
inductive Bound where
  | minimum
  | maximum
  | exclusiveMinimum
  | exclusiveMaximum
  deriving DecidableEq, Repr, Inhabited

/-- What is counted of a value: the characters of a text, the items of an array, the members of an
object. -/
inductive Measure where
  | characters
  | items
  | properties
  deriving DecidableEq, Repr, Inhabited

end Schema

mutual

/-- A schema. -/
inductive Schema where
  /-- Allows every value or none. -/
  | always (allowed : Bool)
  /-- Allows the values that satisfy every rule. -/
  | rules (written : Json) (rules : List Schema.Rule)

/-- A rule of a schema. Values of a kind that a rule is not about satisfy it. -/
inductive Schema.Rule where
  /-- The value has one of the types. -/
  | type (names : List Schema.TypeName)
  /-- The value equals one of those given. -/
  | oneOfValues (values : List Json)
  /-- The value equals the one given. -/
  | exactly (value : Json)
  /-- A number keeps the bound. -/
  | bound (bound : Schema.Bound) (limit : Json.Number)
  /-- A number is a multiple of the divisor. -/
  | multipleOf (divisor : Json.Number)
  /-- At least so many are counted. -/
  | atLeast (measure : Schema.Measure) (limit : Nat)
  /-- At most so many are counted. -/
  | atMost (measure : Schema.Measure) (limit : Nat)
  /-- No two items of an array are equal. -/
  | distinctItems
  /-- An object has members of these names. -/
  | required (names : List String)
  /-- An object that has a member of a name has all those that belong to the name. -/
  | requiredBeside (names : List (String × List String))
  /-- The members of these names follow their schemas. -/
  | properties (declared : List (String × Schema))
  /-- The members follow the schemas of their names, and there are no others. -/
  | onlyProperties (declared : List (String × Schema))
  /-- The members follow the schemas of their names, and all others the last one. -/
  | otherProperties (declared : List (String × Schema)) (others : Schema)
  /-- There are no members. -/
  | noProperties
  /-- The names of the members follow the schema. -/
  | propertyNames (names : Schema)
  /-- An object that has a member of a name follows the schema of the name. -/
  | schemasBeside (schemas : List (String × Schema))
  /-- The first items follow one schema each. -/
  | firstItems (schemas : List Schema)
  /-- The items after the first few follow the schema. -/
  | items (skipped : Nat) (schema : Schema)
  /-- So many items follow the schema. -/
  | contains (schema : Schema) (least : Nat) (most : Option Nat)
  /-- The value follows all of the schemas. -/
  | allOf (schemas : List Schema)
  /-- The value follows one of the schemas at least. -/
  | anyOf (schemas : List Schema)
  /-- The value follows one of the schemas and no more. -/
  | oneOf (schemas : List Schema)
  /-- The value does not follow the schema. -/
  | negation (schema : Schema)
  /-- The value follows the second schema if it follows the first, and else the third. -/
  | conditional (test yes no : Schema)
  /-- The value follows the schema at a place of the root schema. -/
  | reference (target : String)

end

namespace Schema

instance : Inhabited Schema := ⟨.always true⟩

/-- The schema as a document writes it. -/
def written : Schema → Json
  | .always allowed => .bool allowed
  | .rules written _ => written

end Schema

end ApiSurface
