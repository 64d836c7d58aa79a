/-
This file makes a validator of a JSON document that is a schema. A reference names a place of the
document; every reference that a rule may come to is looked up once, when the validator is made, and a
document with one that leads nowhere has no validator. A check follows references at most as often as
one without end could not. The validator is the library for schemas where none other is given.
-/

import ApiSurface.Schema.Reader
import ApiSurface.Schema.Validation
import ApiSurface.Text.Percent

namespace ApiSurface

namespace Schema

/-! ### References -/

mutual

/-- The references of the rules of a schema. -/
def references : Schema → List String
  | .always _ => []
  | .rules _ all => referencesOfAll all

/-- The references of rules. -/
def referencesOfAll : List Rule → List String
  | [] => []
  | rule :: rest => ruleReferences rule ++ referencesOfAll rest

/-- The references of a rule. -/
def ruleReferences : Rule → List String
  | .reference target => [target]
  | .properties declared | .onlyProperties declared | .schemasBeside declared =>
    referencesOfTable declared
  | .otherProperties declared others => referencesOfTable declared ++ references others
  | .firstItems schemas | .allOf schemas | .anyOf schemas | .oneOf schemas =>
    referencesOfList schemas
  | .items _ schema | .contains schema _ _ | .propertyNames schema | .negation schema =>
    references schema
  | .conditional test yes no => references test ++ references yes ++ references no
  | _ => []

/-- The references of the schemas of a list. -/
def referencesOfList : List Schema → List String
  | [] => []
  | schema :: rest => references schema ++ referencesOfList rest

/-- The references of the schemas of a table. -/
def referencesOfTable : List (String × Schema) → List String
  | [] => []
  | (_, schema) :: rest => references schema ++ referencesOfTable rest

end

/-- The value of a document that a reference into it names. -/
def target? (document : Json) (reference : String) : Option Json := do
  let fragment ← Text.dropLead? ['#'] reference.toList
  document.pointer? (← Text.percentText? fragment)

/-- The schemas at references, by reference. -/
abbrev Targets := List (String × Schema)

/-- Looks up references and those of the schemas that they lead to, in as many steps as are left, which
must be enough. -/
def collectTargets? (document : Json) : Nat → List String → Targets → Option Targets
  | _, [], found => some found
  | 0, _ :: _, _ => none
  | steps + 1, reference :: rest, found =>
    if (found.lookup reference).isSome then collectTargets? document steps rest found
    else do
      let schema ← (target? document reference).bind read?
      collectTargets? document steps (rest ++ references schema) (found ++ [(reference, schema)])

mutual

/-- How many values a value holds, itself included. -/
def weight : Json → Nat
  | .array items => 1 + weightOfItems items
  | .object members => 1 + weightOfMembers members
  | _ => 1

/-- How many values the items hold. -/
def weightOfItems : List Json → Nat
  | [] => 0
  | item :: rest => weight item + weightOfItems rest

/-- How many values the members hold. -/
def weightOfMembers : List (String × Json) → Nat
  | [] => 0
  | (_, value) :: rest => weight value + weightOfMembers rest

end

mutual

/-- How many levels of arrays and objects a value has. -/
def height : Json → Nat
  | .array items => heightOfItems items + 1
  | .object members => heightOfMembers members + 1
  | _ => 0

/-- How many levels the highest of the items has. -/
def heightOfItems : List Json → Nat
  | [] => 0
  | item :: rest => max (height item) (heightOfItems rest)

/-- How many levels the highest of the members has. -/
def heightOfMembers : List (String × Json) → Nat
  | [] => 0
  | (_, value) :: rest => max (height value) (heightOfMembers rest)

end

end Schema

/-- A schema with all that its references lead to. -/
structure Validator where
  /-- The schema. -/
  schema : Schema
  /-- The schema at each reference. -/
  targets : Schema.Targets
  deriving Inhabited

namespace Validator

/-- The validator of a document that is a schema. -/
def ofJson? (document : Json) : Option Validator := do
  let schema ← Schema.read? document
  let weight := Schema.weight document
  let targets ← Schema.collectTargets? document (weight * weight) schema.references []
  return ⟨schema, targets⟩

/-- The violations of a schema when at most so many references are followed one into the other. -/
def violationsWithin (targets : Schema.Targets) : Nat → Schema → Json → List Schema.Violation
  | 0, schema, value => Schema.violations (fun _ _ => []) schema value
  | hops + 1, schema, value =>
    Schema.violations
      (fun reference value =>
        match targets.lookup reference with
        | some target => violationsWithin targets hops target value
        | none => [])
      schema value

/-- All violations by a value. -/
def violations (validator : Validator) (value : Json) : List Schema.Violation :=
  violationsWithin validator.targets ((validator.targets.length + 1) * (Schema.height value + 2))
    validator.schema value

end Validator

/-- The library whose checks are the validators of this file. -/
instance : SchemaLibrary where
  checkFor? document := (Validator.ofJson? document).map fun validator value =>
    (validator.violations value).map Schema.Violation.error

end ApiSurface
