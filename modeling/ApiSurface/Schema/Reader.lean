/-
This file reads schemas. Every keyword that has a meaning must hold a value of the shape that belongs to
it, wherever a schema stands, or the whole schema is refused; a keyword that is not known is passed over.
First everything that stands under a keyword is read by itself. Then each keyword becomes a rule, for
which it may look at what stands beside it.
-/

import ApiSurface.Json.Quantity
import ApiSurface.Schema.Basic

namespace ApiSurface.Schema

/-! ### Shapes -/

/-- What a keyword that holds no schema may hold. -/
inductive Shape where
  | text
  | flag
  | number
  /-- A number above zero. -/
  | positive
  /-- A whole number that is not negative. -/
  | count
  /-- Texts that all differ. -/
  | texts
  /-- Texts that all differ, by name. -/
  | textTable
  | values
  /-- The name of a type, or several that all differ. -/
  | types
  /-- A reference into the same document. -/
  | localReference
  deriving DecidableEq, Repr, Inhabited

/-- The number that a value is, if it is one. -/
def asNumber? : Json → Option Json.Number
  | .number number => some number
  | _ => none

/-- The greatest count that is told apart from greater ones. -/
def greatestCount : Nat := Decimal.twoTo 64 - 1

/-- The count that a value is, if it is a whole number that is not negative. -/
def asCount? (value : Json) : Option Nat := do
  let number ← asNumber? value
  let (numerator, denominator) := number.ratio
  if 0 ≤ numerator && number.isWhole then some (min greatestCount (numerator.toNat / denominator))
  else none

/-- The texts that a value is, if it is an array of texts that all differ. -/
def asTexts? (value : Json) : Option (List String) := do
  let texts ← (← value.asArray?).mapM Json.asText?
  if decide texts.Nodup then some texts else none

/-- The types that a value names. -/
def asTypes? (value : Json) : Option (List TypeName) :=
  match value with
  | .text name => (TypeName.ofName? name).map fun type => [type]
  | _ => do
    let types ← (← asTexts? value).mapM TypeName.ofName?
    if types.isEmpty then none else some types

/-- The lists of texts that a value is, if it is an object of such lists. -/
def asTextTable? (value : Json) : Option (List (String × List String)) := do
  (← value.asObject?).mapM fun (name, texts) => do return (name, ← asTexts? texts)

/-- Whether a value has a shape. -/
def Shape.accepts (shape : Shape) (value : Json) : Bool :=
  match shape with
  | .text => value.asText?.isSome
  | .flag => value.asBool?.isSome
  | .number => (asNumber? value).isSome
  | .positive => (asNumber? value).any fun number => number.compareValue (.int 0) == .gt
  | .count => (asCount? value).isSome
  | .texts => (asTexts? value).isSome
  | .textTable => (asTextTable? value).isSome
  | .values => value.asArray?.isSome
  | .types => (asTypes? value).isSome
  | .localReference => value.asText?.any fun target => target.startsWith "#"

/-! ### Keywords -/

/-- What a keyword holds. -/
inductive Role where
  /-- A schema. -/
  | schema
  /-- A list of schemas that is not empty. -/
  | schemas
  /-- Schemas by name. -/
  | table
  /-- A value without schemas in it. -/
  | plain (shape : Shape)
  deriving DecidableEq, Repr, Inhabited

/-- The keywords of each role. -/
def keywordsByRole : List (Role × List String) :=
  [(.schema, ["items", "additionalProperties", "not", "contains", "propertyNames", "if", "then",
      "else", "unevaluatedItems", "unevaluatedProperties", "contentSchema"]),
    (.schemas, ["allOf", "anyOf", "oneOf", "prefixItems"]),
    (.table, ["properties", "patternProperties", "dependentSchemas", "$defs", "definitions"]),
    (.plain .text, ["title", "description", "$comment", "format", "pattern", "$id", "$schema",
      "$anchor", "$dynamicRef", "$dynamicAnchor", "contentEncoding", "contentMediaType"]),
    (.plain .flag, ["uniqueItems", "deprecated", "readOnly", "writeOnly"]),
    (.plain .number, ["minimum", "maximum", "exclusiveMinimum", "exclusiveMaximum"]),
    (.plain .positive, ["multipleOf"]),
    (.plain .count, ["minLength", "maxLength", "minItems", "maxItems", "minProperties",
      "maxProperties", "minContains", "maxContains"]),
    (.plain .texts, ["required"]), (.plain .textTable, ["dependentRequired"]),
    (.plain .values, ["enum", "examples"]), (.plain .types, ["type"]),
    (.plain .localReference, ["$ref"])]

/-- The role of a keyword, if it has a meaning. -/
def roleOf? (keyword : String) : Option Role :=
  (keywordsByRole.find? fun (_, keywords) => keywords.contains keyword).map Prod.fst

/-- What stands under a keyword. -/
inductive Part where
  | schema (schema : Schema)
  | schemas (schemas : List Schema)
  | table (schemas : List (String × Schema))
  | plain (value : Json)

/-- The keywords of a schema with what stands under them, in their order. -/
abbrev Parts := List (String × Part)

namespace Parts

/-- The schema under a keyword. -/
def schema? (parts : Parts) (keyword : String) : Option Schema :=
  match parts.lookup keyword with
  | some (.schema schema) => some schema
  | _ => none

/-- The schemas by name under a keyword, if it is there. -/
def table? (parts : Parts) (keyword : String) : Option (List (String × Schema)) :=
  match parts.lookup keyword with
  | some (.table schemas) => some schemas
  | _ => none

/-- How many schemas stand in the list under a keyword. -/
def listLength (parts : Parts) (keyword : String) : Nat :=
  match parts.lookup keyword with
  | some (.schemas schemas) => schemas.length
  | _ => 0

/-- The count under a keyword. -/
def count? (parts : Parts) (keyword : String) : Option Nat :=
  match parts.lookup keyword with
  | some (.plain value) => asCount? value
  | _ => none

/-- Whether the rule for additional members takes the declared members over. -/
def hasAdditionalRule (parts : Parts) : Bool :=
  match parts.schema? "additionalProperties" with
  | some (.always true) | none => false
  | some _ => true

end Parts

/-! ### Rules -/

/-- The rule for members that are not declared; the declared ones, if there are any, belong to it. -/
def additionalRule? (declared : Option (List (String × Schema))) : Schema → Option Rule
  | .always true => none
  | .always false => some (declared.elim .noProperties .onlyProperties)
  | others => some (.otherProperties (declared.getD []) others)

/-- The rule of a keyword that holds a schema. -/
def schemaRule? (parts : Parts) (keyword : String) (schema : Schema) : Option Rule :=
  match keyword with
  | "items" => some (.items (parts.listLength "prefixItems") schema)
  | "additionalProperties" => additionalRule? (parts.table? "properties") schema
  | "not" => some (.negation schema)
  | "contains" =>
    some (.contains schema ((parts.count? "minContains").getD 1) (parts.count? "maxContains"))
  | "propertyNames" => some (.propertyNames schema)
  | "if" =>
    some (.conditional schema ((parts.schema? "then").getD (.always true))
      ((parts.schema? "else").getD (.always true)))
  | _ => none

/-- The rule of a keyword that holds a list of schemas. -/
def schemasRule? (keyword : String) (schemas : List Schema) : Option Rule :=
  match keyword with
  | "allOf" => some (.allOf schemas)
  | "anyOf" => some (.anyOf schemas)
  | "oneOf" => some (.oneOf schemas)
  | "prefixItems" => some (.firstItems schemas)
  | _ => none

/-- The rule of a keyword that holds schemas by name. -/
def tableRule? (parts : Parts) (keyword : String) (schemas : List (String × Schema)) :
    Option Rule :=
  match keyword with
  | "properties" => if parts.hasAdditionalRule then none else some (.properties schemas)
  | "dependentSchemas" => some (.schemasBeside schemas)
  | _ => none

/-- The rule of a keyword that holds a plain value. -/
def plainRule? (keyword : String) (value : Json) : Option Rule :=
  match keyword with
  | "type" => (asTypes? value).map .type
  | "enum" => value.asArray?.map .oneOfValues
  | "const" => some (.exactly value)
  | "minimum" => (asNumber? value).map (.bound .minimum)
  | "maximum" => (asNumber? value).map (.bound .maximum)
  | "exclusiveMinimum" => (asNumber? value).map (.bound .exclusiveMinimum)
  | "exclusiveMaximum" => (asNumber? value).map (.bound .exclusiveMaximum)
  | "multipleOf" => (asNumber? value).map .multipleOf
  | "minLength" => (asCount? value).map (.atLeast .characters)
  | "maxLength" => (asCount? value).map (.atMost .characters)
  | "minItems" => (asCount? value).map (.atLeast .items)
  | "maxItems" => (asCount? value).map (.atMost .items)
  | "minProperties" => (asCount? value).map (.atLeast .properties)
  | "maxProperties" => (asCount? value).map (.atMost .properties)
  | "uniqueItems" => if value.asBool? = some true then some .distinctItems else none
  | "required" => (asTexts? value).map .required
  | "dependentRequired" => (asTextTable? value).map .requiredBeside
  | "$ref" => value.asText?.map .reference
  | _ => none

/-- The rule of a keyword, if it restricts values by itself. -/
def ruleOf? (parts : Parts) : String × Part → Option Rule
  | (keyword, .schema schema) => schemaRule? parts keyword schema
  | (keyword, .schemas schemas) => schemasRule? keyword schemas
  | (keyword, .table schemas) => tableRule? parts keyword schemas
  | (keyword, .plain value) => plainRule? keyword value

/-! ### Reading -/

mutual

/-- Reads a schema. -/
def read? : Json → Option Schema
  | .bool allowed => some (.always allowed)
  | .object members =>
    (readMembers? members).map fun parts =>
      .rules (.object members) (parts.filterMap (ruleOf? parts))
  | _ => none

/-- Reads a list of schemas. -/
def readList? : Json → Option (List Schema)
  | .array items => readItems? items
  | _ => none

/-- Reads schemas by name. -/
def readTable? : Json → Option (List (String × Schema))
  | .object members => readEntries? members
  | _ => none

/-- Reads each item as a schema. -/
def readItems? : List Json → Option (List Schema)
  | [] => some []
  | item :: rest => do return (← read? item) :: (← readItems? rest)

/-- Reads each member as a schema. -/
def readEntries? : List (String × Json) → Option (List (String × Schema))
  | [] => some []
  | (name, value) :: rest => do return (name, ← read? value) :: (← readEntries? rest)

/-- Reads what stands under the keywords of a schema. -/
def readMembers? : List (String × Json) → Option Parts
  | [] => some []
  | (keyword, value) :: rest => do
    let part ← match roleOf? keyword with
      | some .schema => (read? value).map .schema
      | some .schemas =>
        (readList? value).bind fun schemas =>
          if schemas.isEmpty then none else some (.schemas schemas)
      | some .table => (readTable? value).map .table
      | some (.plain shape) => if shape.accepts value then some (.plain value) else none
      | none => some (.plain value)
    return (keyword, part) :: (← readMembers? rest)

end

end ApiSurface.Schema
