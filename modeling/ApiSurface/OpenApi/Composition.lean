/-
This file merges the compositions of a schema into the schema itself. A schema that is composed of
members becomes one schema that has the properties of all of them, in the order of their first
appearance, and that keeps its own value for every other keyword. What `allOf` lists is required if
any member requires it; what `oneOf` or `anyOf` list is required only if every variant does. A variant
that is just null makes the schema nullable.
-/

import ApiSurface.Json.Value

namespace ApiSurface.OpenApi

open Json (Members)

/-- How the required names of a member combine with those that are there. -/
inductive RequiredRule where
  /-- A name that either side requires is required. -/
  | either
  /-- A name that both sides require is required. -/
  | both
  deriving DecidableEq, Repr, Inhabited

/-- Whether a list holds a value that is the same. -/
def holds (values : List Json) (value : Json) : Bool :=
  values.any fun other => other.same value

/-- Adds the values of the second list that the first does not hold. -/
def union (left right : List Json) : List Json :=
  right.foldl (fun result value => if holds result value then result else result ++ [value]) left

/-- The required names when a member requires `added`. -/
def mergedRequired (rule : RequiredRule) (existing : Option Json) (added : List Json) : List Json :=
  match rule, existing with
  | .either, some (.array names) => union names added
  | .both, some (.array names) => names.filter (holds added)
  | .both, _ => []
  | .either, _ => added

/-- Folds one member of an object into a schema: properties join properties, required names combine,
and any other keyword is taken over only if the schema has none of its name. -/
def absorbMember (rule : RequiredRule) (schema : Members) (key : String) (value : Json) : Members :=
  match key, value with
  | "properties", .object added =>
    match schema.get? "properties" with
    | none => schema ++ [("properties", .object (Members.insertAll [] added))]
    | some (.object existing) =>
      schema.insert "properties" (.object (Members.insertAll existing added))
    | some _ => schema
  | "required", .array added =>
    schema.insert "required" (.array (mergedRequired rule (schema.get? "required") added))
  | _, _ => schema.insertNew key value

/-- Folds an object into a schema. -/
def absorb (rule : RequiredRule) (schema member : Members) : Members :=
  member.foldl (fun result entry => absorbMember rule result entry.1 entry.2) schema

/-! ### Types -/

/-- Whether a value is the name of the null type. -/
def isNullName (value : Json) : Bool :=
  value.asText? == some "null"

/-- A list of types that names one type besides null becomes that type, and null in it makes the
schema nullable. -/
def normalizeTypes (schema : Members) : Members :=
  match schema.get? "type" with
  | some (.array types) =>
    let others := types.filter fun type => !isNullName type
    let schema := match others with
      | [single] => schema.insert "type" single
      | _ => schema
    if others.length = types.length then schema else schema.insert "nullable" (.bool true)
  | _ => schema

/-! ### Compositions -/

/-- Merges what `allOf` lists. The keyword goes, whatever it holds. -/
def mergeAllOf (schema : Members) : Members :=
  match schema.get? "allOf" with
  | some (.array members) =>
    members.foldl
      (fun result member => match member with
        | .object member => absorb .either result member
        | _ => result)
      (schema.erase "allOf")
  | some _ => schema.erase "allOf"
  | none => schema

/-- Whether a schema is just null. -/
def isNullSchema (schema : Json) : Bool :=
  schema.textAt? "type" == some "null"

/-- Whether a schema describes objects. -/
def isObjectSchema (schema : Json) : Bool :=
  schema.textAt? "type" == some "object" || (schema.get? "properties").isSome

/-- Merges one more variant: what it does not require is required no more. -/
def absorbVariant (merged : Members) : Json → Members
  | .object variant =>
    let merged :=
      if Members.contains variant "required" then merged else merged.insert "required" (.array [])
    absorb .both merged variant
  | _ => merged

/-- Merges variants that all describe objects. -/
def mergedVariants : List Json → Members
  | [] => []
  | first :: rest =>
    let start := match first with
      | .object variant => absorb .either [] variant
      | _ => []
    rest.foldl absorbVariant start

/-- The schema that stands for variants of which none is just null: their merger if all of them
describe objects, otherwise the first. -/
def collapsed? : List Json → Option Members
  | [] => none
  | [single] => single.asObject?
  | first :: rest =>
    if (first :: rest).all isObjectSchema then some (mergedVariants (first :: rest))
    else first.asObject?

/-- Merges the variants that a keyword lists. -/
def collapseVariants (key : String) (schema : Members) : Members :=
  match schema.get? key with
  | some (.array variants) =>
    let others := variants.filter fun variant => !isNullSchema variant
    let schema := schema.erase key
    let schema := match collapsed? others with
      | some member => absorb .either schema member
      | none => schema
    if others.length < variants.length then schema.insert "nullable" (.bool true) else schema
  | _ => schema

/-- Merges every composition of a schema. -/
def merge (schema : Members) : Members :=
  collapseVariants "anyOf" (collapseVariants "oneOf" (mergeAllOf (normalizeTypes schema)))

end ApiSurface.OpenApi
