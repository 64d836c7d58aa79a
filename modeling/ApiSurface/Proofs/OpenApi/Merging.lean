/-
This file proves what merging the compositions of a schema leaves alone. A keyword that is there is only
ever changed if it is one of types, of compositions, or one of the two that combine; any other one is
taken over from a member only where the schema has none of its name. A schema without compositions only
has its types changed.
-/

import ApiSurface.OpenApi.Composition
import ApiSurface.Proofs.Json.Members

namespace ApiSurface.OpenApi

open Json (Members)

/-- Members with pairwise different keys that hold what others hold under a key. -/
structure Keeps (key : String) (before after : Members) : Prop where
  distinct : after.keys.Nodup
  kept : ∀ value, before.get? key = some value → after.get? key = some value

section

variable {key : String} {before after : Members}

theorem Keeps.refl (distinct : before.keys.Nodup) (key : String) : Keeps key before before :=
  ⟨distinct, fun _ => id⟩

theorem Keeps.insert (keeps : Keeps key before after) {other : String} (different : key ≠ other)
    (value : Json) : Keeps key before (after.insert other value) :=
  ⟨Members.nodup_keys_insert keeps.distinct other value, fun held found => by
    rw [Members.get?_insert, if_neg different, keeps.kept held found]⟩

theorem Keeps.insertNew (keeps : Keeps key before after) (other : String) (value : Json) :
    Keeps key before (after.insertNew other value) := by
  refine ⟨?_, fun held found => ?_⟩
  · by_cases known : other ∈ after.keys
    · rw [Members.insertNew_of_mem known]
      exact keeps.distinct
    · rw [Members.insertNew_of_notMem known]
      exact Members.nodup_keys_insert keeps.distinct other value
  · rw [Members.get?_insertNew, keeps.kept held found, Option.some_or]

theorem Keeps.erase (keeps : Keeps key before after) {other : String} (different : key ≠ other) :
    Keeps key before (after.erase other) :=
  ⟨Members.nodup_keys_erase keeps.distinct other, fun held found => by
    rw [Members.get?_erase keeps.distinct, if_neg different, keeps.kept held found]⟩

/-! ### Merging -/

variable (notProperties : key ≠ "properties") (notRequired : key ≠ "required")
include notProperties notRequired

theorem Keeps.absorbMember (keeps : Keeps key before after) (rule : RequiredRule) (other : String)
    (value : Json) : Keeps key before (absorbMember rule after other value) := by
  unfold OpenApi.absorbMember
  split
  · next added =>
    split
    · next missing =>
      rw [← Members.insert_of_notMem (Members.notMem_keys_of_get?_eq_none missing)]
      exact keeps.insert notProperties _
    · exact keeps.insert notProperties _
    · exact keeps
  · exact keeps.insert notRequired _
  · exact keeps.insertNew other value

theorem Keeps.absorb (keeps : Keeps key before after) (rule : RequiredRule) (member : Members) :
    Keeps key before (absorb rule after member) :=
  List.foldlRecOn member _ keeps fun _ kept entry _ =>
    kept.absorbMember notProperties notRequired rule entry.1 entry.2

theorem Keeps.mergeAllOf (keeps : Keeps key before after) (notAllOf : key ≠ "allOf") :
    Keeps key before (mergeAllOf after) := by
  unfold OpenApi.mergeAllOf
  split
  · refine List.foldlRecOn _ _ (keeps.erase notAllOf) fun _ kept member _ => ?_
    split
    · exact kept.absorb notProperties notRequired .either _
    · exact kept
  · exact keeps.erase notAllOf
  · exact keeps

theorem Keeps.collapseVariants (keeps : Keeps key before after) {keyword : String}
    (different : key ≠ keyword) (notNullable : key ≠ "nullable") :
    Keeps key before (collapseVariants keyword after) := by
  unfold OpenApi.collapseVariants
  split
  · have erased := keeps.erase different
    have merged := fun member => erased.absorb notProperties notRequired .either member
    dsimp only
    split <;> split
    · exact (merged _).insert notNullable _
    · exact erased.insert notNullable _
    · exact merged _
    · exact erased
  · exact keeps

end

/-! ### Types -/

theorem normalizeTypes_eq_self {schema : Members}
    (noList : ∀ types, schema.get? "type" ≠ some (.array types)) : normalizeTypes schema = schema := by
  unfold normalizeTypes
  split
  · next types found => exact absurd found (noList types)
  · rfl

/-- A list of types that names one type besides null becomes that type, and nothing else changes but the
flag for null. -/
theorem normalizeTypes_cases (schema : Members) :
    normalizeTypes schema = schema ∨ ∃ types, schema.get? "type" = some (.array types) ∧
      ∃ typed, (typed = schema ∨ ∃ single, typed = schema.insert "type" single) ∧
        (normalizeTypes schema = typed ∨ normalizeTypes schema = typed.insert "nullable" (.bool true)) := by
  unfold normalizeTypes
  split
  · next types found =>
    refine .inr ⟨types, found, ?_⟩
    dsimp only
    split <;> split
    · exact ⟨_, .inr ⟨_, rfl⟩, .inl rfl⟩
    · exact ⟨_, .inl rfl, .inl rfl⟩
    · exact ⟨_, .inr ⟨_, rfl⟩, .inr rfl⟩
    · exact ⟨_, .inl rfl, .inr rfl⟩
  · exact .inl rfl

theorem get?_normalizeTypes {key : String} (notType : key ≠ "type") (notNullable : key ≠ "nullable")
    (schema : Members) : (normalizeTypes schema).get? key = schema.get? key := by
  rcases normalizeTypes_cases schema with same | ⟨types, -, typed, rfl | ⟨single, rfl⟩, same | same⟩ <;>
    simp [same, Members.get?_insert, notType, notNullable]

theorem nodup_keys_normalizeTypes {schema : Members} (distinct : schema.keys.Nodup) :
    (normalizeTypes schema).keys.Nodup := by
  rcases normalizeTypes_cases schema with same | ⟨types, -, typed, rfl | ⟨single, rfl⟩, same | same⟩ <;>
    rw [same]
  · exact distinct
  · exact distinct
  · exact Members.nodup_keys_insert distinct _ _
  · exact Members.nodup_keys_insert distinct _ _
  · exact Members.nodup_keys_insert (Members.nodup_keys_insert distinct _ _) _ _

/-- The keywords of compositions. -/
def compositionKeywords : List String := ["allOf", "oneOf", "anyOf"]

/-- The keywords of types, those of compositions and those that combine. -/
def mergedKeywords : List String :=
  "type" :: "nullable" :: "properties" :: "required" :: compositionKeywords

/-- What stands under any other keyword stays when compositions are merged. -/
theorem keeps_merge {schema : Members} (distinct : schema.keys.Nodup) {key : String}
    (other : key ∉ mergedKeywords) : Keeps key schema (merge schema) := by
  simp only [mergedKeywords, compositionKeywords, List.mem_cons, List.not_mem_nil, or_false, not_or]
    at other
  obtain ⟨notType, notNullable, notProperties, notRequired, notAllOf, notOneOf, notAnyOf⟩ := other
  have typed : Keeps key schema (normalizeTypes schema) := ⟨nodup_keys_normalizeTypes distinct,
    fun value held => (get?_normalizeTypes notType notNullable schema).trans held⟩
  have merged := typed.mergeAllOf notProperties notRequired notAllOf
  exact (merged.collapseVariants notProperties notRequired notOneOf notNullable).collapseVariants
    notProperties notRequired notAnyOf notNullable

theorem nodup_keys_merge {schema : Members} (distinct : schema.keys.Nodup) :
    (merge schema).keys.Nodup :=
  (keeps_merge distinct (show "description" ∉ mergedKeywords by decide)).distinct

/-- A type that is no list stays as well. -/
theorem keeps_type_merge {schema : Members} (distinct : schema.keys.Nodup)
    (noList : ∀ types, schema.get? "type" ≠ some (.array types)) :
    Keeps "type" schema (merge schema) := by
  have merged := (Keeps.refl distinct "type").mergeAllOf (by decide) (by decide) (by decide)
  rw [merge, normalizeTypes_eq_self noList]
  exact (merged.collapseVariants (by decide) (by decide) (by decide) (by decide)).collapseVariants
    (by decide) (by decide) (by decide) (by decide)

/-- No keyword of a composition stands in a value. -/
def IsUncomposed (value : Json) : Prop :=
  ∀ keyword ∈ compositionKeywords, value.get? keyword = none

instance (value : Json) : Decidable (IsUncomposed value) :=
  inferInstanceAs (Decidable (∀ keyword ∈ compositionKeywords, value.get? keyword = none))

/-- A schema without compositions only has its types changed. -/
theorem merge_of_isUncomposed {schema : Members} (uncomposed : IsUncomposed (.object schema)) :
    merge schema = normalizeTypes schema := by
  have absent (keyword : String) (composes : keyword ∈ compositionKeywords) (notType : keyword ≠ "type")
      (notNullable : keyword ≠ "nullable") : (normalizeTypes schema).get? keyword = none := by
    rw [get?_normalizeTypes notType notNullable]
    exact uncomposed keyword composes
  have noAllOf : mergeAllOf (normalizeTypes schema) = normalizeTypes schema := by
    rw [mergeAllOf, absent "allOf" (by decide) (by decide) (by decide)]
  have noOneOf : collapseVariants "oneOf" (normalizeTypes schema) = normalizeTypes schema := by
    rw [collapseVariants, absent "oneOf" (by decide) (by decide) (by decide)]
  have noAnyOf : collapseVariants "anyOf" (normalizeTypes schema) = normalizeTypes schema := by
    rw [collapseVariants, absent "anyOf" (by decide) (by decide) (by decide)]
  rw [merge, noAllOf, noOneOf, noAnyOf]

theorem merge_eq_self {schema : Members}
    (absent : ∀ keyword ∈ mergedKeywords, schema.get? keyword = none) : merge schema = schema := by
  have uncomposed : IsUncomposed (.object schema) := fun keyword composes =>
    absent keyword (List.mem_append_right ["type", "nullable", "properties", "required"] composes)
  rw [merge_of_isUncomposed uncomposed]
  refine normalizeTypes_eq_self fun types listed => ?_
  rw [absent "type" List.mem_cons_self] at listed
  cases listed

end ApiSurface.OpenApi
