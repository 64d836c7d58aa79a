/-
This file proves what the replacement of flags leaves alone. A flag and what it changes stand under few
keywords, so what stands under any other keyword of a schema stays where it is. There is one exception:
a schema that may be null by its flag and names no types becomes one of two, and then everything but its
annotations moves one level down.
-/

import ApiSurface.OpenApi.Dialect
import ApiSurface.Proofs.Json.Members

namespace ApiSurface.OpenApi

open Json (Members)

/-! ### Schemas inside of a schema -/

/-- What becomes of the value under a keyword when the flags of all schemas in it are replaced. -/
def normalizeUnder (keyword : String) (value : Json) : Json :=
  if schemaKeywords.contains keyword then normalizeListed value
  else if schemaTableKeywords.contains keyword then normalizeNamed value
  else value

theorem normalizeMembers_eq (members : Members) :
    normalizeMembers members =
      members.map fun member => (member.1, normalizeUnder member.1 member.2) := by
  induction members with
  | nil => rfl
  | cons first rest inductionHypothesis =>
    obtain ⟨keyword, value⟩ := first
    rw [normalizeMembers, inductionHypothesis]
    rfl

theorem normalizeTable_eq (table : Members) :
    normalizeTable table = table.map fun entry => (entry.1, normalize entry.2) := by
  induction table with
  | nil => rfl
  | cons first rest inductionHypothesis =>
    obtain ⟨name, schema⟩ := first
    rw [normalizeTable, inductionHypothesis]
    rfl

theorem keys_normalizeMembers (members : Members) :
    Members.keys (normalizeMembers members) = members.keys := by
  rw [normalizeMembers_eq, Members.keys, List.map_map]
  rfl

theorem keys_normalizeTable (table : Members) : Members.keys (normalizeTable table) = table.keys := by
  rw [normalizeTable_eq, Members.keys, List.map_map]
  rfl

theorem get?_normalizeMembers (members : Members) (keyword : String) :
    Members.get? (normalizeMembers members) keyword =
      (members.get? keyword).map (normalizeUnder keyword) := by
  rw [normalizeMembers_eq]
  exact Keyed.lookup_map normalizeUnder

theorem get?_normalizeTable (table : Members) (name : String) :
    Members.get? (normalizeTable table) name = (table.get? name).map normalize := by
  rw [normalizeTable_eq]
  exact Keyed.lookup_map fun _ => normalize

/-! ### What stays under a keyword -/

/-- Members with pairwise different keys, the same under a key as others. -/
structure Leaves (key : String) (before after : Members) : Prop where
  distinct : after.keys.Nodup
  same : after.get? key = before.get? key

section

variable {key : String} {before after : Members}

theorem Leaves.insert (leaves : Leaves key before after) {other : String} (different : key ≠ other)
    (value : Json) : Leaves key before (after.insert other value) :=
  ⟨Members.nodup_keys_insert leaves.distinct other value, by
    rw [Members.get?_insert, if_neg different, leaves.same]⟩

theorem Leaves.erase (leaves : Leaves key before after) {other : String} (different : key ≠ other) :
    Leaves key before (after.erase other) :=
  ⟨Members.nodup_keys_erase leaves.distinct other, by
    rw [Members.get?_erase leaves.distinct, if_neg different, leaves.same]⟩

theorem Leaves.withStrictBound (leaves : Leaves key before after) {strict bound : String}
    (notStrict : key ≠ strict) (notBound : key ≠ bound) :
    Leaves key before (OpenApi.withStrictBound strict bound after) := by
  unfold OpenApi.withStrictBound
  split
  · dsimp only
    split
    · exact ((leaves.erase notStrict).erase notBound).insert notStrict _
    · exact leaves.erase notStrict
  · exact leaves

theorem Leaves.withNullListed (leaves : Leaves key before after) (notEnum : key ≠ "enum") :
    Leaves key before (OpenApi.withNullListed after) := by
  unfold OpenApi.withNullListed
  split
  · split
    · exact leaves
    · exact leaves.insert notEnum _
  · exact leaves

end

/-! ### Schemas that may be null -/

/-- Whether a schema names types. -/
def namesTypes (members : Members) : Bool :=
  (members.get? "type").any fun type => type.asText?.isSome || type.asArray?.isSome

/-- The schema may be null by its flag and names no types. -/
structure IsSplit (members : Members) : Prop where
  nullable : members.get? "nullable" = some (.bool true)
  untyped : namesTypes members = false

/-- The keywords of flags and of what they change. -/
def flagKeywords : List String :=
  ["exclusiveMinimum", "minimum", "exclusiveMaximum", "maximum", "nullable", "enum", "type", "anyOf"]

theorem get?_moveAnnotations {key : String} (other : key ∉ annotations) (schema outer : Members) :
    (moveAnnotations schema outer).2.get? key = outer.get? key := by
  unfold moveAnnotations
  generalize annotations = moved at other ⊢
  induction moved generalizing schema outer with
  | nil => rfl
  | cons annotation rest inductionHypothesis =>
    rw [List.mem_cons, not_or] at other
    rw [List.foldl_cons]
    dsimp only
    cases schema.get? annotation with
    | none => exact inductionHypothesis _ _ other.2
    | some value => rw [inductionHypothesis _ _ other.2, Members.get?_insert, if_neg other.1]

theorem get?_orNull {key : String} (notAnnotated : key ∉ annotations) (notChoice : key ≠ "anyOf")
    (members : Members) : (orNull members).get? key = none := by
  rw [orNull, Members.get?_insert, if_neg notChoice, get?_moveAnnotations notAnnotated,
    Members.get?_nil]

theorem leaves_withStrictBounds {members : Members} (distinct : members.keys.Nodup) (key : String)
    (other : key ∉ ["exclusiveMinimum", "minimum", "exclusiveMaximum", "maximum"]) :
    Leaves key members (withStrictBound "exclusiveMaximum" "maximum"
      (withStrictBound "exclusiveMinimum" "minimum" members)) := by
  simp only [List.mem_cons, List.not_mem_nil, or_false, not_or] at other
  obtain ⟨notStrictMinimum, notMinimum, notStrictMaximum, notMaximum⟩ := other
  have start : Leaves key members members := ⟨distinct, rfl⟩
  exact (start.withStrictBound notStrictMinimum notMinimum).withStrictBound notStrictMaximum notMaximum

/-- Adding null to the types of a schema leaves what stands under a keyword, if it names types. -/
theorem get?_withNullType {members : Members} (distinct : members.keys.Nodup) {key : String}
    (notType : key ≠ "type") (notChoice : key ≠ "anyOf") (notAnnotated : key ∉ annotations) :
    (withNullType members).get? key = if namesTypes members then members.get? key else none := by
  have leaves : Leaves key members members := ⟨distinct, rfl⟩
  have moved := get?_orNull notAnnotated notChoice members
  unfold withNullType namesTypes
  split
  · next name found =>
    rw [found]
    exact (leaves.insert notType _).same
  · next types found =>
    rw [found]
    split
    · rfl
    · exact (leaves.insert notType _).same
  · next noText noArray =>
    cases found : members.get? "type" with
    | none => exact moved
    | some type =>
      cases type with
      | text name => exact absurd found (noText name)
      | array types => exact absurd found (noArray types)
      | _ => exact moved

/-- What stands under a keyword of no flag stays there, unless the schema becomes one of two. -/
theorem get?_withoutFlags {members : Members} (distinct : members.keys.Nodup) (key : String)
    (notFlag : key ∉ flagKeywords) (notAnnotated : key ∉ annotations) :
    (¬ IsSplit members ∧ (withoutFlags members).get? key = members.get? key) ∨
      (IsSplit members ∧ (withoutFlags members).get? key = none) := by
  simp only [flagKeywords, List.mem_cons, List.not_mem_nil, or_false, not_or] at notFlag
  obtain ⟨notStrictMinimum, notMinimum, notStrictMaximum, notMaximum, notNullable, notEnum, notType,
    notChoice⟩ := notFlag
  have bounded := leaves_withStrictBounds distinct key (by simp [*])
  have flag := leaves_withStrictBounds distinct "nullable" (by decide)
  have type := leaves_withStrictBounds distinct "type" (by decide)
  unfold withoutFlags
  generalize withStrictBound "exclusiveMaximum" "maximum"
    (withStrictBound "exclusiveMinimum" "minimum" members) = others at bounded flag type ⊢
  unfold withNullable
  rw [flag.same]
  split
  · next unflagged =>
    refine .inl ⟨fun isSplit => ?_, bounded.same⟩
    rw [isSplit.nullable] at unflagged
    cases unflagged
  · next value flagged =>
    dsimp only
    split
    · next allowed =>
      have listed := (bounded.erase notNullable).withNullListed notEnum
      have listedType := (type.erase (show "type" ≠ "nullable" by decide)).withNullListed (by decide)
      have names : namesTypes (withNullListed (others.erase "nullable")) = namesTypes members := by
        rw [namesTypes, listedType.same, namesTypes]
      rw [get?_withNullType listed.distinct notType notChoice notAnnotated, names]
      cases typed : namesTypes members with
      | true =>
        refine .inl ⟨fun isSplit => ?_, listed.same⟩
        rw [isSplit.untyped] at typed
        cases typed
      | false =>
        refine .inr ⟨⟨?_, typed⟩, rfl⟩
        cases value with
        | bool flag => rw [flagged, Option.some.inj allowed]
        | _ => cases allowed
    · next forbidden =>
      refine .inl ⟨fun isSplit => ?_, (bounded.erase notNullable).same⟩
      rw [isSplit.nullable] at flagged
      exact forbidden (by rw [← Option.some.inj flagged]; rfl)

end ApiSurface.OpenApi
