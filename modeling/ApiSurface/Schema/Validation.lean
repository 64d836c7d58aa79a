/-
This file checks values against schemas and lists all violations: rule by rule in the order of the
schema, the members of an object in the order of the declarations, the items of an array by position. A
combination of schemas counts as one violation, except that those of every schema of a conjunction are
listed. What stands at a reference is given by a function, so that the check recurs on the schema.
-/

import ApiSurface.Schema.Violation

namespace ApiSurface.Schema

open Json (Members)

/-! ### Single rules -/

/-- Whether a value has a type. A number without a fractional part is an integer. -/
def TypeName.holds (name : TypeName) (value : Json) : Bool :=
  match name, value with
  | .array, .array _ | .boolean, .bool _ | .null, .null | .number, .number _ | .object, .object _
  | .string, .text _ => true
  | .integer, .number found => found.isWhole
  | _, _ => false

/-- Whether a value has one of several types. Beside other types only a number that is held as a whole
number is an integer. -/
def TypeName.holdsAmong (name : TypeName) (value : Json) : Bool :=
  match name, value with
  | .integer, .number (.double _) => false
  | _, _ => name.holds value

/-- Whether a value has one of the types. -/
def hasType (names : List TypeName) (value : Json) : Bool :=
  match names with
  | [name] => name.holds value
  | _ => names.any fun name => name.holdsAmong value

/-- Whether a number keeps a bound. -/
def Bound.keeps (bound : Bound) (limit number : Json.Number) : Bool :=
  let order := number.compareValue limit
  match bound with
  | .minimum => order != .lt
  | .maximum => order != .gt
  | .exclusiveMinimum => order == .gt
  | .exclusiveMaximum => order == .lt

/-- How much there is of a value, if the value is of the kind that is counted. -/
def Measure.count? (measure : Measure) (value : Json) : Option Nat :=
  match measure, value with
  | .characters, .text text => some text.length
  | .items, .array elements => some elements.length
  | .properties, .object members => some members.length
  | _, _ => none

/-- One violation at the value itself unless the condition holds. -/
def demand (holds : Bool) (value : Json) (breach : Breach) : List Violation :=
  if holds then [] else [⟨[], value, breach⟩]

/-- The violation of a number, if the value is one and fails a test. -/
def ofNumber (value : Json) (breach : Breach) (holds : Json.Number → Bool) : List Violation :=
  match value with
  | .number number => demand (holds number) value breach
  | _ => []

/-- The violation of a count, if the value can be counted and the count fails a test. -/
def ofCount (measure : Measure) (value : Json) (breach : Breach) (holds : Nat → Bool) :
    List Violation :=
  match measure.count? value with
  | some count => demand (holds count) value breach
  | none => []

/-- A violation for each name of which an object has no member. -/
def missingNames (value : Json) (members : Members) (names : List String) : List Violation :=
  names.flatMap fun name => demand (members.contains name) value (.missing name)

/-- A step to an item. -/
def positionStep (position : Nat) : String :=
  String.ofList (Decimal.natText position)

/-- The violations of members, each of which has its own check, in the order of the object. The names
of those without a check are collected. -/
def ofMembers (checked : List (String × List Violation)) (value : Json) (members : Members) :
    List Violation :=
  let unexpected := members.keys.filter fun name => (checked.lookup name).isNone
  members.keys.flatMap (fun name => (checked.lookup name).getD []) ++
    demand unexpected.isEmpty value (.unexpected unexpected)

/-! ### Schemas -/

mutual

/-- The violations of a schema by a value, where `follow` gives those of the schema at a reference. -/
def violations (follow : String → Json → List Violation) : Schema → Json → List Violation
  | .always allowed, value => demand allowed value .forbidden
  | .rules _ all, value => violationsOfAll follow all value

/-- The violations of each of the rules. -/
def violationsOfAll (follow : String → Json → List Violation) :
    List Rule → Json → List Violation
  | [], _ => []
  | rule :: rest, value => ruleViolations follow rule value ++ violationsOfAll follow rest value

/-- The violations of a rule. -/
def ruleViolations (follow : String → Json → List Violation) : Rule → Json → List Violation
  | .type names, value => demand (hasType names value) value (.type names)
  | .oneOfValues values, value =>
    demand (values.any (Json.equal value)) value (.oneOfValues values)
  | .exactly expected, value => demand (Json.equal value expected) value (.exactly expected)
  | .bound kind limit, value => ofNumber value (.bound kind limit) (kind.keeps limit)
  | .multipleOf divisor, value =>
    ofNumber value (.multipleOf divisor) fun number => number.isMultipleOf divisor
  | .atLeast measure limit, value =>
    ofCount measure value (.tooFew measure limit) fun count => limit ≤ count
  | .atMost measure limit, value =>
    ofCount measure value (.tooMany measure limit) fun count => count ≤ limit
  | .distinctItems, value =>
    match value with
    | .array items => demand (Json.allDistinct items) value .repeatedItems
    | _ => []
  | .required names, value =>
    match value with
    | .object members => missingNames value members names
    | _ => []
  | .requiredBeside names, value =>
    match value with
    | .object members =>
      names.flatMap fun (name, needed) =>
        if Members.contains members name then missingNames value members needed else []
    | _ => []
  | .properties declared, value =>
    match value with
    | .object members => (declaredViolations follow declared members).flatMap Prod.snd
    | _ => []
  | .onlyProperties declared, value =>
    match value with
    | .object members => ofMembers (declaredViolations follow declared members) value members
    | _ => []
  | .otherProperties declared others, value =>
    match value with
    | .object members =>
      let checked := declaredViolations follow declared members
      members.flatMap fun (name, member) =>
        match checked.lookup name with
        | some found => found
        | none => (violations follow others member).map (Violation.below name)
    | _ => []
  | .noProperties, value =>
    match value with
    | .object ((_, member) :: _) => [⟨[], member, .forbidden⟩]
    | _ => []
  | .propertyNames names, value =>
    match value with
    | .object members =>
      (Members.keys members).flatMap fun name =>
        (violations follow names (.text name)).map fun violation => { violation with path := [] }
    | _ => []
  | .schemasBeside schemas, value =>
    match value with
    | .object members => besideViolations follow schemas members value
    | _ => []
  | .firstItems schemas, value =>
    match value with
    | .array items => itemViolations follow schemas 0 items
    | _ => []
  | .items skipped schema, value =>
    match value with
    | .array items =>
      (items.zipIdx.drop skipped).flatMap fun (item, position) =>
        (violations follow schema item).map (Violation.below (positionStep position))
    | _ => []
  | .contains schema least most, value =>
    match value with
    | .array items =>
      let count := items.countP fun item => (violations follow schema item).isEmpty
      demand (least ≤ count && most.all fun limit => count ≤ limit) value .contains
    | _ => []
  | .allOf schemas, value => (eachViolations follow schemas value).flatten
  | .anyOf schemas, value =>
    demand ((eachViolations follow schemas value).any List.isEmpty) value (.noneOf "anyOf")
  | .oneOf schemas, value =>
    match (eachViolations follow schemas value).countP List.isEmpty with
    | 0 => [⟨[], value, .noneOf "oneOf"⟩]
    | 1 => []
    | _ => [⟨[], value, .severalOf⟩]
  | .negation schema, value =>
    demand (!(violations follow schema value).isEmpty) value (.negation schema.written)
  | .conditional test yes no, value =>
    if (violations follow test value).isEmpty then violations follow yes value
    else violations follow no value
  | .reference target, value => follow target value

/-- For each schema the violations of it. -/
def eachViolations (follow : String → Json → List Violation) :
    List Schema → Json → List (List Violation)
  | [], _ => []
  | schema :: rest, value => violations follow schema value :: eachViolations follow rest value

/-- For each declared name the violations of its schema by the member of that name. -/
def declaredViolations (follow : String → Json → List Violation) :
    List (String × Schema) → Members → List (String × List Violation)
  | [], _ => []
  | (name, schema) :: rest, members =>
    let found := match members.get? name with
      | some member => (violations follow schema member).map (Violation.below name)
      | none => []
    (name, found) :: declaredViolations follow rest members

/-- The violations of the schemas whose names an object has members of. -/
def besideViolations (follow : String → Json → List Violation) :
    List (String × Schema) → Members → Json → List Violation
  | [], _, _ => []
  | (name, schema) :: rest, members, value =>
    (if members.contains name then violations follow schema value else []) ++
      besideViolations follow rest members value

/-- The violations of schemas by the items at their positions. -/
def itemViolations (follow : String → Json → List Violation) :
    List Schema → Nat → List Json → List Violation
  | [], _, _ => []
  | _ :: _, _, [] => []
  | schema :: schemas, position, item :: items =>
    (violations follow schema item).map (Violation.below (positionStep position)) ++
      itemViolations follow schemas (position + 1) items

end

end ApiSurface.Schema
