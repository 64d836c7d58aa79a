/-
This file replaces every reference of a document by a copy of what it points at. The copy is made by
the same traversal, one level deeper, so a document is walked down to a fixed depth at most. A
reference that is met again while its own target is being copied is a cycle and is cut, as is all
that lies too deep; a reference that leads nowhere is marked. Keywords are rewritten only where a
schema can stand: the keys of a map of names are names, and an example or a default is mere data.

A target that was copied without a cut is the same wherever it is met at no greater depth, so such
copies are kept and reused.
-/

import ApiSurface.Json.Pointer
import ApiSurface.OpenApi.Composition

namespace ApiSurface.OpenApi

open Json (Members)

/-! ### Positions -/

/-- What kind of value stands at a place of a document. -/
inductive Position where
  /-- A schema, or a part of the document that may hold one. -/
  | schema
  /-- A map from names to schemas. -/
  | names
  /-- Mere data. -/
  | literal
  deriving DecidableEq, Repr, Inhabited

/-- The keywords whose value maps names to schemas. -/
def namedSchemaKeywords : List String :=
  ["properties", "patternProperties", "dependentSchemas", "$defs", "definitions", "schemas"]

/-- The keywords whose value is mere data. -/
def literalKeywords : List String :=
  ["example", "examples", "default", "enum", "const"]

/-- The position of the value under a key. -/
def Position.ofChild (position : Position) (key : String) : Position :=
  match position with
  | .literal => .literal
  | .names => .schema
  | .schema =>
    if key ∈ literalKeywords then .literal
    else if key ∈ namedSchemaKeywords then .names
    else .schema

/-- The position of the items of an array. -/
def Position.ofItem : Position → Position
  | .literal => .literal
  | _ => .schema

/-! ### Marks -/

/-- The key of the mark for a cut. -/
def circularKey : String := "x-circular-ref"

/-- The key of the mark for a reference that leads nowhere. -/
def unresolvedKey : String := "x-unresolved-ref"

/-- What stands where a cycle or too great a depth was cut. -/
def circular (reference : String) : Json :=
  .object [("type", .text "object"), (circularKey, .text reference)]

/-- What stands for a reference that leads nowhere. -/
def unresolved (reference : String) : Json :=
  .object [(unresolvedKey, .text reference)]

/-- The depth below the root down to which a document is walked. -/
def maxDepth : Nat := 64

/-! ### Traversal -/

/-- A copy of a target and how many levels were left when it was made. -/
structure Copy where
  /-- The levels that were left. -/
  levels : Nat
  /-- The copy. -/
  value : Json
  deriving Repr, Inhabited

/-- What a traversal carries along. -/
structure Progress where
  /-- The copies made without a cut, the latest first. -/
  copies : List (String × Copy)
  /-- The number of cuts made so far. -/
  cuts : Nat
  deriving Repr, Inhabited

/-- Applies a step to each element in order, carrying the progress along. -/
def mapProgress {α β : Type} (step : α → Progress → β × Progress) :
    List α → Progress → List β × Progress
  | [], progress => ([], progress)
  | first :: rest, progress =>
    let (result, progress) := step first progress
    let (results, progress) := mapProgress step rest progress
    (result :: results, progress)

/-- The reference that an object is, if it is one. -/
def referenceOf? (members : Members) : Option String :=
  (members.get? "$ref").bind Json.asText?

/-- The members beside a reference. -/
def siblings (members : Members) : Members :=
  members.filter fun member => member.1 != "$ref"

/-- A copy that can be used with the given number of levels left. -/
def usableCopy? (progress : Progress) (reference : String) (levels : Nat) : Option Json :=
  match progress.copies.lookup reference with
  | some copy => if copy.levels ≤ levels then some copy.value else none
  | none => none

/-- Copies a value at a position. `stack` holds the references whose targets are being copied, the
innermost first, and `levels` is the number of levels left. -/
def resolveNode (root : Json) (stack : List String) (position : Position) :
    (levels : Nat) → Json → Progress → Json × Progress
  | 0, _, progress =>
    (circular (stack.head?.getD "#"), { progress with cuts := progress.cuts + 1 })
  | levels + 1, node, progress =>
    match node with
    | .object members =>
      let child (member : String × Json) (progress : Progress) :=
        let (value, progress) :=
          resolveNode root stack (position.ofChild member.1) levels member.2 progress
        ((member.1, value), progress)
      match referenceOf? members with
      | none =>
        let (resolved, progress) := mapProgress child members progress
        (.object (if position = .schema then merge resolved else resolved), progress)
      | some reference =>
        let (target, progress) : Json × Progress :=
          match reference.toList with
          | '#' :: pointer =>
            if reference ∈ stack then
              (circular reference, { progress with cuts := progress.cuts + 1 })
            else
              match (if position = .schema then usableCopy? progress reference levels else none),
                root.pointer? (String.ofList pointer) with
              | some copy, _ => (copy, progress)
              | none, none => (unresolved reference, progress)
              | none, some target =>
                let (value, after) :=
                  resolveNode root (reference :: stack) position levels target progress
                if position = .schema && after.cuts == progress.cuts then
                  (value, { after with copies := (reference, ⟨levels, value⟩) :: after.copies })
                else (value, after)
          | _ => (unresolved reference, progress)
        match target with
        | .object target =>
          let (overlaid, progress) := mapProgress child (siblings members) progress
          (.object (Members.insertAll target overlaid), progress)
        | target => (target, progress)
    | .array items =>
      let (items, progress) :=
        mapProgress (resolveNode root stack position.ofItem levels) items progress
      (.array items, progress)
    | scalar => (scalar, progress)

/-- Copies a document with every reference replaced and every composition merged. -/
def resolve (root : Json) : Json :=
  (resolveNode root [] .schema (maxDepth + 1) root ⟨[], 0⟩).1

/-! ### References that lead nowhere -/

mutual

/-- The first reference that leads nowhere, in the order of the document. -/
def findUnresolved? : Json → Option String
  | .object members =>
    match (members.lookup unresolvedKey) with
    | some (.text reference) => some reference
    | _ => findUnresolvedMember? members
  | .array items => findUnresolvedItem? items
  | _ => none

/-- The first reference that leads nowhere in a list of values. -/
def findUnresolvedItem? : List Json → Option String
  | [] => none
  | item :: rest => (findUnresolved? item).orElse fun _ => findUnresolvedItem? rest

/-- The first reference that leads nowhere in a list of members. -/
def findUnresolvedMember? : List (String × Json) → Option String
  | [] => none
  | (_, value) :: rest => (findUnresolved? value).orElse fun _ => findUnresolvedMember? rest

end

end ApiSurface.OpenApi
