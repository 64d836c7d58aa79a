/-
This file proves that annotations do not restrict values. A schema has the same rules without its own
annotations: no annotation gives a rule, and no rule looks at an annotation beside it. Schemas with the
same rules refer to the same and have the same violations, however they are written.
-/

import ApiSurface.Proofs.Keyed
import ApiSurface.Proofs.Schema.Semantics
import ApiSurface.Schema.Validator

namespace ApiSurface.Schema

open Json (Members)

/-! ### Schemas that are alike -/

/-- Schemas with the same rules, however they are written. -/
inductive IsLike : Schema → Schema → Prop where
  | always (allowed : Bool) : IsLike (.always allowed) (.always allowed)
  | rules (written other : Json) (all : List Rule) : IsLike (.rules written all) (.rules other all)

namespace IsLike

theorem refl (schema : Schema) : IsLike schema schema := by
  cases schema with
  | always allowed => exact .always allowed
  | rules written all => exact .rules written written all

theorem violations_eq {schema other : Schema} (alike : IsLike schema other)
    (follow : String → Json → List Violation) :
    violations follow schema = violations follow other := by
  cases alike <;> funext value <;> simp [violations]

end IsLike

/-! ### Rules without annotations -/

theorem ruleOf?_eq_none {keyword : String} (harmless : isRestricting keyword = false)
    (parts : Parts) (part : Part) : ruleOf? parts (keyword, part) = none := by
  have listed : keyword ∈ OpenApi.annotations :=
    List.contains_iff_mem.mp (by simpa [isRestricting] using harmless)
  simp only [OpenApi.annotations, List.mem_cons, List.not_mem_nil, or_false] at listed
  rcases listed with rfl | rfl | rfl | rfl | rfl <;> cases part <;> rfl

/-- A rule depends only on restrictions. -/
theorem ruleOf?_restrictions (parts : Parts) (entry : String × Part) :
    ruleOf? (restrictions parts) entry = ruleOf? parts entry := by
  have beside {keyword : String} (restricting : isRestricting keyword = true) :
      (restrictions parts).lookup keyword = parts.lookup keyword :=
    Keyed.lookup_filter restricting
  obtain ⟨keyword, part⟩ := entry
  cases part with
  | schema schema =>
    simp only [ruleOf?, schemaRule?, Parts.listLength, Parts.table?, Parts.count?, Parts.schema?,
      beside (show isRestricting "prefixItems" = true by decide),
      beside (show isRestricting "properties" = true by decide),
      beside (show isRestricting "minContains" = true by decide),
      beside (show isRestricting "maxContains" = true by decide),
      beside (show isRestricting "then" = true by decide),
      beside (show isRestricting "else" = true by decide)]
  | table schemas =>
    have additional : Parts.hasAdditionalRule (restrictions parts) = parts.hasAdditionalRule := by
      unfold Parts.hasAdditionalRule Parts.schema?
      rw [beside (show isRestricting "additionalProperties" = true by decide)]
    show tableRule? (restrictions parts) keyword schemas = tableRule? parts keyword schemas
    unfold tableRule?
    rw [additional]
  | schemas => rfl
  | plain => rfl

/-- Reads what stands under a keyword. -/
def readPart? (keyword : String) (value : Json) : Option Part :=
  match roleOf? keyword with
  | some .schema => (read? value).map .schema
  | some .schemas =>
    (readList? value).bind fun schemas => if schemas.isEmpty then none else some (.schemas schemas)
  | some .table => (readTable? value).map .table
  | some (.plain shape) => if shape.accepts value then some (.plain value) else none
  | none => some (.plain value)

theorem readMembers?_cons (keyword : String) (value : Json) (rest : Members) :
    readMembers? ((keyword, value) :: rest) =
      (readPart? keyword value).bind fun part =>
        (readMembers? rest).bind fun others => some ((keyword, part) :: others) := by
  rw [readMembers?]
  unfold readPart?
  cases roleOf? keyword with
  | none => rfl
  | some role =>
    cases role with
    | plain shape => dsimp only; split <;> rfl
    | _ => rfl

theorem readMembers?_cons_eq_some {keyword : String} {value : Json} {rest : Members} {parts : Parts}
    (read : readMembers? ((keyword, value) :: rest) = some parts) :
    ∃ part others, readPart? keyword value = some part ∧ readMembers? rest = some others ∧
      parts = (keyword, part) :: others := by
  rw [readMembers?_cons] at read
  obtain ⟨part, found, read⟩ := Option.bind_eq_some_iff.mp read
  obtain ⟨others, further, made⟩ := Option.bind_eq_some_iff.mp read
  exact ⟨part, others, found, further, (Option.some.inj made).symm⟩

/-- What stands under the restrictions of a schema is read without its annotations as well. -/
theorem readMembers?_restrictions {members : Members} {parts : Parts}
    (read : readMembers? members = some parts) :
    readMembers? (restrictions members) = some (restrictions parts) := by
  induction members generalizing parts with
  | nil =>
    obtain rfl := Option.some.inj read
    rfl
  | cons first rest inductionHypothesis =>
    obtain ⟨keyword, value⟩ := first
    obtain ⟨part, others, found, further, rfl⟩ := readMembers?_cons_eq_some read
    have behind := inductionHypothesis further
    rw [restrictions_cons, restrictions_cons]
    split
    · rw [readMembers?_cons, found]
      exact congrArg (Option.bind · fun others => some ((keyword, part) :: others)) behind
    · exact behind

theorem filterMap_ruleOf?_restrictions (parts : Parts) :
    (restrictions parts).filterMap (ruleOf? (restrictions parts)) = parts.filterMap (ruleOf? parts) := by
  rw [show ruleOf? (restrictions parts) = ruleOf? parts from funext (ruleOf?_restrictions parts),
    restrictions, List.filterMap_filter]
  refine List.filterMap_congr fun entry _ => ?_
  split
  · rfl
  · next harmless => exact (ruleOf?_eq_none (Bool.eq_false_iff.mpr harmless) parts entry.2).symm

theorem read?_object_eq_some {members : Members} {schema : Schema}
    (read : read? (.object members) = some schema) :
    ∃ parts, readMembers? members = some parts ∧
      schema = .rules (.object members) (parts.filterMap (ruleOf? parts)) := by
  rw [read?] at read
  obtain ⟨parts, found, made⟩ := Option.map_eq_some_iff.mp read
  exact ⟨parts, found, made.symm⟩

/-- A schema is read without its own annotations as well. -/
theorem exists_read?_withoutAnnotations {document : Json} {schema : Schema}
    (read : read? document = some schema) :
    ∃ plain, read? (withoutAnnotations document) = some plain ∧ IsLike schema plain := by
  cases document with
  | object members =>
    obtain ⟨parts, found, rfl⟩ := read?_object_eq_some read
    refine ⟨_, congrArg (Option.map _) (readMembers?_restrictions found), ?_⟩
    rw [← filterMap_ruleOf?_restrictions parts]
    exact .rules _ _ _
  | bool allowed => exact ⟨schema, read, .refl schema⟩
  | _ => cases read

end ApiSurface.Schema
