/-
This file lists what can be wrong with a value that does not follow a schema, and the text of each, which
names the value as JSON.
-/

import ApiSurface.Decimal.Shortest
import ApiSurface.Json.Pointer
import ApiSurface.Json.Quantity
import ApiSurface.Json.Writer
import ApiSurface.Schema.Basic
import ApiSurface.Schema.Library

namespace ApiSurface.Schema

/-- What is wrong with a value. -/
inductive Breach where
  /-- No value is allowed. -/
  | forbidden
  /-- It has none of the types. -/
  | type (names : List TypeName)
  /-- It is none of the values. -/
  | oneOfValues (values : List Json)
  /-- It is not the value. -/
  | exactly (value : Json)
  /-- It does not keep the bound. -/
  | bound (bound : Bound) (limit : Json.Number)
  /-- It is not a multiple of the divisor. -/
  | multipleOf (divisor : Json.Number)
  /-- There is too little of it. -/
  | tooFew (measure : Measure) (limit : Nat)
  /-- There is too much of it. -/
  | tooMany (measure : Measure) (limit : Nat)
  /-- Two of its items are equal. -/
  | repeatedItems
  /-- It lacks a member. -/
  | missing (name : String)
  /-- It has members that are not declared. -/
  | unexpected (names : List String)
  /-- Too few or too many of its items follow the schema. -/
  | contains
  /-- It follows none of the schemas under a keyword. -/
  | noneOf (keyword : String)
  /-- It follows more than one of the schemas. -/
  | severalOf
  /-- It follows a schema that it must not follow. -/
  | negation (schema : Json)
  deriving Repr, Inhabited

/-- A violation of a schema. -/
structure Violation where
  /-- The names and positions that lead to the value. -/
  path : List String
  /-- The value. -/
  value : Json
  /-- What is wrong with it. -/
  breach : Breach
  deriving Repr, Inhabited

/-! ### Texts -/

/-- A word for things counted, in the singular for one. -/
def Measure.counted (measure : Measure) (count : Nat) : String :=
  let (one, many) := match measure with
    | .characters => ("character", "characters")
    | .items => ("item", "items")
    | .properties => ("property", "properties")
  (Json.ofNat count).compact ++ " " ++ (if count = 1 then one else many)

/-- What says that a value does not keep a bound. -/
def Bound.relation : Bound → String
  | .minimum => "is less than the minimum of"
  | .maximum => "is greater than the maximum of"
  | .exclusiveMinimum => "is less than or equal to the minimum of"
  | .exclusiveMaximum => "is greater than or equal to the maximum of"

/-- What says that there is too little. -/
def Measure.below : Measure → String
  | .characters => "is shorter than"
  | .items | .properties => "has less than"

/-- What says that there is too much. -/
def Measure.above : Measure → String
  | .characters => "is longer than"
  | .items | .properties => "has more than"

/-- Names between quotes, one comma and one blank between each two. -/
def quotedNames (quote : String) (names : List String) : String :=
  ", ".intercalate (names.map fun name => quote ++ name ++ quote)

/-- What says which types a value should have. -/
def typeText : List TypeName → String
  | [name] => "is not of type " ++ quotedNames "\"" [name.name]
  | names => "is not of types " ++
    quotedNames "\"" ((TypeName.all.filter names.contains).map TypeName.name)

/-- What says which members were not expected. -/
def unexpectedText (names : List String) : String :=
  let verb := if names.length = 1 then "was" else "were"
  let quoted := quotedNames "'" names
  s!"Additional properties are not allowed ({quoted} {verb} unexpected)"

/-- The text of a breach by a value. -/
def Breach.message (value : Json) : Breach → String
  | .forbidden => s!"False schema does not allow {value.compact}"
  | .type names => s!"{value.compact} {typeText names}"
  | .oneOfValues values => s!"{value.compact} is not one of {(Json.array values).compact}"
  | .exactly expected => s!"{expected.compact} was expected"
  | .bound kind limit => s!"{value.compact} {kind.relation} {(Json.number limit).compact}"
  | .multipleOf divisor =>
    s!"{value.compact} is not a multiple of {divisor.nearestDouble.positionalText}"
  | .tooFew measure limit => s!"{value.compact} {measure.below} {measure.counted limit}"
  | .tooMany measure limit => s!"{value.compact} {measure.above} {measure.counted limit}"
  | .repeatedItems => s!"{value.compact} has non-unique elements"
  | .missing name => s!"{(Json.text name).compact} is a required property"
  | .unexpected names => unexpectedText names
  | .contains => s!"None of {value.compact} are valid under the given schema"
  | .noneOf keyword =>
    s!"{value.compact} is not valid under any of the schemas listed in the '{keyword}' keyword"
  | .severalOf =>
    s!"{value.compact} is valid under more than one of the schemas listed in the 'oneOf' keyword"
  | .negation schema => s!"{schema.compact} is not allowed for {value.compact}"

namespace Violation

/-- The violation of a member or an item as one of the value that holds it. -/
def below (step : String) (violation : Violation) : Violation :=
  { violation with path := step :: violation.path }

/-- The place of the value as a JSON pointer. -/
def pointer (violation : Violation) : String :=
  String.ofList (violation.path.flatMap fun step => '/' :: Json.stepText step)

/-- The violation as an error of the value that was checked. -/
def error (violation : Violation) : SchemaError :=
  ⟨violation.pointer, violation.breach.message violation.value⟩

end Violation

end ApiSurface.Schema
