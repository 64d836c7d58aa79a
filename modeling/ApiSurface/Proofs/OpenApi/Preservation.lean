/-
This file proves that replacing flags keeps what a schema allows: a value is valid against a schema that is
read with flags if and only if it is valid against the schema without them.

One schema is taken at a time, with those inside of it already replaced. A flag for a strict bound only moves
the limit from one keyword to another. A flag for null lets null in, which the replacement does in three ways:
as a further type, as a further member of an enumeration, and as a choice where no type is named. Every other
keyword lets null pass anyway, because it speaks of numbers, objects and arrays.
-/

import ApiSurface.Proofs.OpenApi.Dialect
import ApiSurface.Proofs.OpenApi.Validity
import Mathlib.Data.Option.Basic

namespace ApiSurface.OpenApi

open Json (Members)

/-! ### Schemas of documents -/

/-- The keywords that restrict values, or refer to schemas that do, besides those that are read here. -/
def otherRestrictions : List String :=
  ["$ref", "$dynamicRef", "allOf", "anyOf", "oneOf", "not", "if", "then", "else", "const", "multipleOf",
    "minLength", "maxLength", "pattern", "minItems", "maxItems", "uniqueItems", "contains", "minContains",
    "maxContains", "prefixItems", "minProperties", "maxProperties", "patternProperties", "propertyNames",
    "dependentRequired", "dependentSchemas", "unevaluatedItems", "unevaluatedProperties"]

/-- What stands under the keywords of a schema has the shape that they ask for, where a strict bound may be
a flag. All other keywords are annotations. -/
structure IsShaped (schema : Members) : Prop where
  type : ∀ type ∈ schema.get? "type", (∃ name, type = .text name) ∨ ∃ names, type = Json.ofTexts names
  enum : ∀ listed ∈ schema.get? "enum", ∃ values, listed = .array values
  bound : ∀ side : Side, ∀ limit ∈ schema.get? side.keyword, ∃ number, limit = .number number
  strict : ∀ side : Side, ∀ limit ∈ schema.get? side.strictKeyword,
    (∃ flag, limit = .bool flag) ∨ ∃ number, limit = .number number
  required : ∀ names ∈ schema.get? "required", ∃ required, names = Json.ofTexts required
  properties : ∀ table ∈ schema.get? "properties", ∃ declared, table = .object declared
  others : ∀ keyword ∈ otherRestrictions, keyword ∉ schema.keys

/-- A schema with flags, of which all schemas in it are ones again. -/
inductive IsDocumentSchema : Json → Prop
  /-- A schema that allows every value or none. -/
  | always (allowed : Bool) : IsDocumentSchema (.bool allowed)
  /-- A schema of keywords. -/
  | keywords {schema : Members} (distinct : schema.keys.Nodup) (shaped : IsShaped schema)
    (properties : ∀ declared, schema.get? "properties" = some (.object declared) →
      ∀ name inner, Members.get? declared name = some inner → IsDocumentSchema inner)
    (additional : ∀ inner, schema.get? "additionalProperties" = some inner → IsDocumentSchema inner)
    (items : ∀ inner, schema.get? "items" = some inner → IsDocumentSchema inner) :
    IsDocumentSchema (.object schema)

section

variable {schema : Members} {valid : Json → Json → Prop}

/-- Null passes every bound. -/
theorem IsShaped.keepsBounds_null (shaped : IsShaped schema) (side : Side) :
    KeepsBounds .flagged schema .null side where
  bound limit found := by
    obtain ⟨number, rfl⟩ := shaped.bound side limit found
    exact ⟨number, rfl, nofun⟩
  strict limit found := by
    unfold strictLimit? at found
    split at found
    · obtain ⟨number, rfl⟩ := shaped.bound side limit found
      exact ⟨number, rfl, nofun⟩
    · cases found
    · next notSet notUnset =>
      rcases shaped.strict side limit found with ⟨flag, rfl⟩ | ⟨number, rfl⟩
      · cases flag with
        | false => exact absurd found (notUnset rfl)
        | true => exact absurd found (notSet rfl)
      · exact ⟨number, rfl, nofun⟩

/-- Null needs no members. -/
theorem IsShaped.hasRequired_null (shaped : IsShaped schema) :
    ∀ names ∈ schema.get? "required", HasRequired names .null := by
  intro names found
  obtain ⟨required, rfl⟩ := shaped.required names found
  exact ⟨required, rfl, nofun⟩

/-- There is nothing inside of null. -/
theorem IsShaped.contains_null (shaped : IsShaped schema) : Contains valid schema .null where
  properties table found := by
    obtain ⟨declared, rfl⟩ := shaped.properties table found
    exact ⟨declared, rfl, nofun⟩
  additional _ _ := nofun
  items _ _ := nofun
  choice choices found := by
    rw [Members.get?_eq_none_of_notMem (shaped.others "anyOf" (by decide))] at found
    cases found

end

/-! ### Strict bounds -/

section

variable {schema : Members} {value limit : Json} {side : Side}

/-- A strict bound is the stronger one. -/
theorem KeepsLimit.of_strict (keeps : KeepsLimit side.strictBound limit value) :
    KeepsLimit side.bound limit value := by
  obtain ⟨number, rfl, each⟩ := keeps
  refine ⟨number, rfl, fun held whole => ?_⟩
  have strict := each held whole
  cases side <;> revert strict <;>
    simp only [Side.strictBound, Side.bound, Schema.Bound.keeps] <;>
    cases held.compareValue number <;> decide

theorem Side.keyword_ne_strictKeyword (side : Side) : side.keyword ≠ side.strictKeyword := by
  cases side <;> decide

theorem strictLimit?_of_flag {flag : Bool} (flagged : schema.get? side.strictKeyword = some (.bool flag)) :
    strictLimit? .flagged schema side = if flag then schema.get? side.keyword else none := by
  unfold strictLimit?
  rw [flagged]
  cases flag <;> rfl

theorem strictLimit?_of_unflagged (unflagged : ∀ flag, schema.get? side.strictKeyword ≠ some (.bool flag)) :
    strictLimit? .flagged schema side = schema.get? side.strictKeyword := by
  unfold strictLimit?
  split
  · next set => exact absurd set (unflagged true)
  · next unset => exact absurd unset (unflagged false)
  · rfl

/-- Replaces the flag of the strict bound on a side. -/
def withStrictSide (side : Side) (schema : Members) : Members :=
  withStrictBound side.strictKeyword side.keyword schema

/-- The limit that a flag takes from the bound stands under the keyword of the strict bound. -/
theorem get?_strictKeyword_withStrictSide (distinct : schema.keys.Nodup) :
    (withStrictSide side schema).get? side.strictKeyword = strictLimit? .flagged schema side := by
  have apart := side.keyword_ne_strictKeyword
  have erasedBound : (schema.erase side.strictKeyword).get? side.keyword = schema.get? side.keyword := by
    rw [Members.get?_erase distinct, if_neg apart]
  have erasedStrict : (schema.erase side.strictKeyword).get? side.strictKeyword = none := by
    rw [Members.get?_erase distinct, if_pos rfl]
  unfold withStrictSide withStrictBound
  split
  · next flag flagged =>
    rw [strictLimit?_of_flag flagged]
    dsimp only
    rw [erasedBound]
    cases flag with
    | false => exact erasedStrict
    | true =>
      cases schema.get? side.keyword with
      | none => exact erasedStrict
      | some limit => exact (Members.get?_insert _ _ _ _).trans (if_pos rfl)
  · next unflagged => exact (strictLimit?_of_unflagged unflagged).symm

/-- The bound stays unless its limit is that of the strict bound. -/
theorem get?_keyword_withStrictSide (distinct : schema.keys.Nodup) :
    (withStrictSide side schema).get? side.keyword = schema.get? side.keyword ∨
      (withStrictSide side schema).get? side.keyword = none ∧
        strictLimit? .flagged schema side = schema.get? side.keyword := by
  have apart := side.keyword_ne_strictKeyword
  have distinctErased := Members.nodup_keys_erase distinct side.strictKeyword
  unfold withStrictSide withStrictBound
  split
  · next flag flagged =>
    dsimp only
    split
    · refine .inr ⟨?_, strictLimit?_of_flag flagged⟩
      rw [Members.get?_insert, if_neg apart, Members.get?_erase distinctErased, if_pos rfl]
    · exact .inl (by rw [Members.get?_erase distinct, if_neg apart])
  · exact .inl rfl

/-- The bounds say the same whether a flag takes the limit or it stands there itself. -/
theorem keepsBounds_withStrictSide_iff (distinct : schema.keys.Nodup) :
    KeepsBounds .standard (withStrictSide side schema) value side ↔
      KeepsBounds .flagged schema value side := by
  have strict : strictLimit? .standard (withStrictSide side schema) side =
      strictLimit? .flagged schema side := get?_strictKeyword_withStrictSide distinct
  rcases get?_keyword_withStrictSide distinct with same | ⟨moved, limit⟩
  · exact ⟨fun keeps => ⟨same ▸ keeps.bound, strict ▸ keeps.strict⟩,
      fun keeps => ⟨same ▸ keeps.bound, strict ▸ keeps.strict⟩⟩
  · constructor
    · intro keeps
      have each := strict ▸ keeps.strict
      exact ⟨fun other found => (each other (limit ▸ found)).of_strict, each⟩
    · intro keeps
      exact ⟨fun other found => absurd (moved ▸ found) (Option.not_mem_none other), strict ▸ keeps.strict⟩

/-- The bounds on one side do not depend on a flag on the other side. -/
theorem keepsBounds_withStrictSide_of_ne {dialect : Dialect} {other : Side} (different : side ≠ other)
    (distinct : schema.keys.Nodup) :
    KeepsBounds dialect (withStrictSide other schema) value side ↔ KeepsBounds dialect schema value side := by
  have leaves {key : String} : Leaves key schema schema := ⟨distinct, rfl⟩
  refine keepsBounds_congr (leaves.withStrictBound ?_ ?_).same (leaves.withStrictBound ?_ ?_).same <;>
    cases side <;> cases other <;> first | exact absurd rfl different | decide

/-- The bounds on each side say the same when the flags on both sides are replaced. -/
theorem keepsBounds_withStrictSides_iff (distinct : schema.keys.Nodup) :
    KeepsBounds .standard (withStrictSide .upper (withStrictSide .lower schema)) value side ↔
      KeepsBounds .flagged schema value side := by
  have start : Leaves "type" schema schema := ⟨distinct, rfl⟩
  have distinctLower : (withStrictSide .lower schema).keys.Nodup :=
    (start.withStrictBound (by decide) (by decide)).distinct
  cases side with
  | lower =>
    rw [keepsBounds_withStrictSide_of_ne (by decide) distinctLower, keepsBounds_withStrictSide_iff distinct]
  | upper =>
    rw [keepsBounds_withStrictSide_iff distinctLower, keepsBounds_withStrictSide_of_ne (by decide) distinct]

theorem leaves_withStrictSides (distinct : schema.keys.Nodup) (key : String)
    (other : key ∉ ["exclusiveMinimum", "minimum", "exclusiveMaximum", "maximum"]) :
    Leaves key schema (withStrictSide .upper (withStrictSide .lower schema)) :=
  leaves_withStrictBounds distinct key other

theorem contains_withStrictSides_iff (distinct : schema.keys.Nodup) {valid : Json → Json → Prop} :
    Contains valid (withStrictSide .upper (withStrictSide .lower schema)) value ↔
      Contains valid schema value := by
  have notBound : ∀ keyword ∈ innerKeywords,
      keyword ∉ ["exclusiveMinimum", "minimum", "exclusiveMaximum", "maximum"] := by decide
  exact contains_congr fun keyword known =>
    (leaves_withStrictSides distinct keyword (notBound keyword known)).same

/-- A schema says the same when the flags of both strict bounds are replaced. -/
theorem valid_withStrictSides_iff (distinct : schema.keys.Nodup) :
    Valid .standard (.object (withStrictSide .upper (withStrictSide .lower schema))) value ↔
      Satisfies .flagged schema value ∧ Contains (Valid .standard) schema value := by
  have type := (leaves_withStrictSides distinct "type" (by decide)).same
  have enum := (leaves_withStrictSides distinct "enum" (by decide)).same
  have required := (leaves_withStrictSides distinct "required" (by decide)).same
  rw [valid_standard_iff, contains_withStrictSides_iff distinct]
  refine and_congr_left fun _ => ⟨fun satisfies => ?_, fun satisfies => ?_⟩
  · exact ⟨type ▸ satisfies.type, enum ▸ satisfies.enum,
      fun side => (keepsBounds_withStrictSides_iff distinct).mp (satisfies.bounds side),
      required ▸ satisfies.required⟩
  · exact ⟨type ▸ satisfies.type, enum ▸ satisfies.enum,
      fun side => (keepsBounds_withStrictSides_iff distinct).mpr (satisfies.bounds side),
      required ▸ satisfies.required⟩

end

/-! ### Null -/

section

variable {schema : Members} {value : Json}

theorem isOfType_null_iff : IsOfType "null" value ↔ value = .null := by
  have named : Schema.TypeName.ofName? "null" = some .null := by decide
  unfold IsOfType
  rw [named]
  cases value <;> simp [Schema.TypeName.holds]

theorem equal_null_iff : Json.equal .null value = true ↔ value = .null := by
  cases value <;> simp [Json.equal]

theorem isNull_iff : value.isNull = true ↔ value = .null := by
  cases value <;> simp [Json.isNull]

/-- With null in it, an enumeration allows null besides. -/
theorem isListed_withNull_iff {values : List Json} :
    IsListed (.array (if values.any Json.isNull then values else values ++ [.null])) value ↔
      value = .null ∨ IsListed (.array values) value := by
  have isListed_iff (values : List Json) :
      IsListed (.array values) value ↔ ∃ other ∈ values, Json.equal other value = true := by
    simp [IsListed]
  rw [isListed_iff, isListed_iff]
  split
  · next known =>
    refine ⟨.inr, fun either => either.elim (fun same => ?_) id⟩
    obtain ⟨other, inside, null⟩ := List.any_eq_true.mp known
    obtain rfl := isNull_iff.mp null
    exact ⟨_, inside, equal_null_iff.mpr same⟩
  · simp [or_and_right, exists_or, equal_null_iff, or_comm]

theorem get?_withNullListed_of_ne {keyword : String} (other : keyword ≠ "enum") :
    (withNullListed schema).get? keyword = schema.get? keyword := by
  unfold withNullListed
  split
  · split
    · rfl
    · rw [Members.get?_insert, if_neg other]
  · rfl

/-- An enumeration is satisfied with null in it by null and by what satisfied it before. -/
theorem enum_withNullListed_iff (shaped : ∀ listed ∈ schema.get? "enum", ∃ values, listed = .array values) :
    (∀ listed ∈ (withNullListed schema).get? "enum", IsListed listed value) ↔
      value = .null ∨ ∀ listed ∈ schema.get? "enum", IsListed listed value := by
  cases found : schema.get? "enum" with
  | none =>
    have same : withNullListed schema = schema := by rw [withNullListed, found]
    rw [same, found]
    simp
  | some listed =>
    obtain ⟨values, rfl⟩ := shaped listed found
    have extended : (withNullListed schema).get? "enum" =
        some (.array (if values.any Json.isNull then values else values ++ [.null])) := by
      rw [withNullListed, found]
      dsimp only
      split
      · exact found
      · rw [Members.get?_insert, if_pos rfl]
    rw [extended]
    simp only [Option.mem_def, Option.some.injEq, forall_eq']
    exact isListed_withNull_iff

/-- What becomes of a schema that names types when null is added to them. -/
theorem exists_withNullType {type : Json} (found : schema.get? "type" = some type)
    (shaped : (∃ name, type = .text name) ∨ ∃ names, type = Json.ofTexts names) :
    (∀ keyword ≠ "type", (withNullType schema).get? keyword = schema.get? keyword) ∧
      ∃ extended, (withNullType schema).get? "type" = some extended ∧
        ∀ value, HasType extended value ↔ value = .null ∨ HasType type value := by
  have insert (extended : Json) : ∀ keyword ≠ "type",
      (schema.insert "type" extended).get? keyword = schema.get? keyword := by
    intro keyword other
    rw [Members.get?_insert, if_neg other]
  have there (extended : Json) : (schema.insert "type" extended).get? "type" = some extended := by
    rw [Members.get?_insert, if_pos rfl]
  rcases shaped with ⟨name, rfl⟩ | ⟨names, rfl⟩
  · have extended : withNullType schema = schema.insert "type" (Json.ofTexts [name, "null"]) := by
      rw [withNullType, found]
    rw [extended]
    refine ⟨insert _, _, there _, fun value => ?_⟩
    simp [HasType, Json.ofTexts, isOfType_null_iff, or_comm]
  · unfold withNullType
    rw [found]
    dsimp only [Json.ofTexts]
    split
    · next known =>
      refine ⟨fun _ _ => rfl, _, found, fun value => ⟨.inr, fun either => either.elim ?_ id⟩⟩
      rintro rfl
      obtain ⟨type, inside, null⟩ := List.any_eq_true.mp known
      obtain ⟨name, listed, rfl⟩ := List.mem_map.mp inside
      obtain rfl : name = "null" := by simpa [Json.asText?] using null
      exact ⟨"null", inside, isOfType_null_iff.mpr rfl⟩
    · refine ⟨insert _, _, there _, fun value => ?_⟩
      simp [HasType, or_and_right, exists_or, isOfType_null_iff, or_comm]

/-- Null passes all keywords of a schema but those that name types and values. -/
structure PassesNull (schema : Members) : Prop where
  bounds : ∀ side, KeepsBounds .standard schema .null side
  required : ∀ names ∈ schema.get? "required", HasRequired names .null
  contains : ∀ valid, Contains valid schema .null

theorem PassesNull.of_same {other : Members} (passes : PassesNull schema)
    (same : ∀ keyword ∈ ownKeywords ++ innerKeywords, other.get? keyword = schema.get? keyword) :
    PassesNull other where
  bounds side := by
    have bound : other.get? side.keyword = schema.get? side.keyword := by
      cases side <;> exact same _ (by decide)
    have strict : other.get? side.strictKeyword = schema.get? side.strictKeyword := by
      cases side <;> exact same _ (by decide)
    exact (keepsBounds_congr bound strict).mpr (passes.bounds side)
  required := same "required" (by decide) ▸ passes.required
  contains valid := (contains_congr fun keyword known => same keyword
    (List.mem_append_right _ known)).mpr (passes.contains valid)

/-- With null among the types and the values that are named, a schema is satisfied by null and by what
satisfied it before. -/
theorem PassesNull.satisfies_iff {extended : Members} (passes : PassesNull schema)
    (same : ∀ keyword ∈ ownKeywords, keyword ≠ "type" → keyword ≠ "enum" →
      extended.get? keyword = schema.get? keyword)
    (type : (∀ type ∈ extended.get? "type", HasType type value) ↔
      value = .null ∨ ∀ type ∈ schema.get? "type", HasType type value)
    (enum : (∀ listed ∈ extended.get? "enum", IsListed listed value) ↔
      value = .null ∨ ∀ listed ∈ schema.get? "enum", IsListed listed value) :
    Satisfies .standard extended value ↔ value = .null ∨ Satisfies .standard schema value := by
  have bounds (side : Side) : KeepsBounds .standard extended value side ↔
      KeepsBounds .standard schema value side := by
    have bound : extended.get? side.keyword = schema.get? side.keyword := by
      cases side <;> exact same _ (by decide) (by decide) (by decide)
    have strict : extended.get? side.strictKeyword = schema.get? side.strictKeyword := by
      cases side <;> exact same _ (by decide) (by decide) (by decide)
    exact keepsBounds_congr bound strict
  have required := same "required" (by decide) (by decide) (by decide)
  constructor
  · intro satisfies
    by_cases null : value = .null
    · exact .inl null
    · exact .inr ⟨(type.mp satisfies.type).resolve_left null, (enum.mp satisfies.enum).resolve_left null,
        fun side => (bounds side).mp (satisfies.bounds side), required ▸ satisfies.required⟩
  · rintro (rfl | satisfies)
    · exact ⟨type.mpr (.inl rfl), enum.mpr (.inl rfl), fun side => (bounds side).mpr (passes.bounds side),
        required ▸ passes.required⟩
    · exact ⟨type.mpr (.inr satisfies.type), enum.mpr (.inr satisfies.enum),
        fun side => (bounds side).mpr (satisfies.bounds side), required ▸ satisfies.required⟩

/-! ### Choices -/

theorem Leaves.moveAnnotations {keyword : String} {before after : Members}
    (leaves : Leaves keyword before after) (outer : Members) (other : keyword ∉ annotations) :
    Leaves keyword before (moveAnnotations after outer).1 := by
  unfold OpenApi.moveAnnotations
  generalize annotations = moved at other ⊢
  induction moved generalizing after outer with
  | nil => exact leaves
  | cons annotation rest inductionHypothesis =>
    rw [List.mem_cons, not_or] at other
    rw [List.foldl_cons]
    dsimp only
    cases after.get? annotation with
    | none => exact inductionHypothesis leaves outer other.2
    | some value => exact inductionHypothesis (leaves.erase other.1) _ other.2

theorem valid_nullSchema_iff : Valid .standard nullSchema value ↔ value = .null := by
  have other {keyword : String} (different : keyword ≠ "type") :
      Members.get? [("type", Json.text "null")] keyword = none := by
    rw [Members.get?_cons, if_neg different, Members.get?_nil]
  rw [nullSchema, valid_standard_iff, ← isOfType_null_iff]
  constructor
  · rintro ⟨satisfies, -⟩
    exact satisfies.type (.text "null") rfl
  · intro null
    refine ⟨satisfies_of_none (fun _ _ => other) fun type found => ?_,
      contains_of_none (fun keyword known _ => other ?_) fun choices found => ?_⟩
    · obtain rfl := Option.some.inj found
      exact null
    · revert keyword
      decide
    · rw [other (by decide)] at found
      cases found

/-- Beside its annotations a schema that may be null only has a choice. -/
theorem valid_orNull_iff (distinct : schema.keys.Nodup) :
    Valid .standard (.object (orNull schema)) value ↔
      value = .null ∨ Valid .standard (.object schema) value := by
  have notAnnotated : ∀ keyword ∈ ownKeywords ++ innerKeywords, keyword ∉ annotations := by decide
  have missing : ∀ keyword ∈ ownKeywords ++ innerKeywords, keyword ≠ "anyOf" →
      (orNull schema).get? keyword = none :=
    fun keyword known other => get?_orNull (notAnnotated keyword known) other schema
  have moved : Valid .standard (.object (moveAnnotations schema []).1) value ↔
      Valid .standard (.object schema) value := by
    refine valid_standard_congr fun keyword known => ?_
    have start : Leaves keyword schema schema := ⟨distinct, rfl⟩
    exact (start.moveAnnotations [] (notAnnotated keyword known)).same
  have found : (orNull schema).get? "anyOf" =
      some (.array [.object (moveAnnotations schema []).1, nullSchema]) := by
    rw [orNull, Members.get?_insert, if_pos rfl]
  rw [valid_standard_iff, ← moved]
  constructor
  · rintro ⟨-, contains⟩
    obtain ⟨schemas, same, inner, there, valid⟩ := contains.choice _ found
    obtain rfl := Json.array.inj same
    simp only [List.mem_cons, List.not_mem_nil, or_false] at there
    rcases there with rfl | rfl
    · exact .inr valid
    · exact .inl (valid_nullSchema_iff.mp valid)
  · intro either
    have untyped := missing "type" (by decide) (by decide)
    refine ⟨satisfies_of_none (fun keyword own _ => missing keyword (List.mem_append_left _ own) ?_)
        fun type there => ?_,
      contains_of_none (fun keyword known => missing keyword (List.mem_append_right _ known))
        fun choices same => ?_⟩
    · revert keyword
      decide
    · rw [untyped] at there
      cases there
    · obtain rfl := Option.some.inj (found.symm.trans same)
      refine ⟨_, rfl, ?_⟩
      rcases either with null | valid
      · exact ⟨nullSchema, by simp, valid_nullSchema_iff.mpr null⟩
      · exact ⟨_, List.mem_cons_self, valid⟩

end

/-! ### One schema -/

section

variable {schema : Members} {value : Json}

/-- With null among the types and the values that are named, a schema is one for null and for what was valid
before. -/
theorem PassesNull.valid_iff {extended : Members} (passes : PassesNull schema)
    (same : ∀ keyword ∈ ownKeywords ++ innerKeywords, keyword ≠ "type" → keyword ≠ "enum" →
      extended.get? keyword = schema.get? keyword)
    (type : (∀ type ∈ extended.get? "type", HasType type value) ↔
      value = .null ∨ ∀ type ∈ schema.get? "type", HasType type value)
    (enum : (∀ listed ∈ extended.get? "enum", IsListed listed value) ↔
      value = .null ∨ ∀ listed ∈ schema.get? "enum", IsListed listed value) :
    Valid .standard (.object extended) value ↔ value = .null ∨ Valid .standard (.object schema) value := by
  have notOwn : ∀ keyword ∈ innerKeywords, keyword ≠ "type" ∧ keyword ≠ "enum" := by decide
  have contains : Contains (Valid .standard) extended value ↔ Contains (Valid .standard) schema value :=
    contains_congr fun keyword known => same keyword (List.mem_append_right _ known)
      (notOwn keyword known).1 (notOwn keyword known).2
  rw [valid_standard_iff, valid_standard_iff, contains,
    passes.satisfies_iff (fun keyword known => same keyword (List.mem_append_left _ known)) type enum]
  constructor
  · rintro ⟨null | satisfies, contained⟩
    · exact .inl null
    · exact .inr ⟨satisfies, contained⟩
  · rintro (rfl | ⟨satisfies, contained⟩)
    · exact ⟨.inl rfl, passes.contains _⟩
    · exact ⟨.inr satisfies, contained⟩

/-- Adding null to the types and the values that a schema names lets null in. -/
theorem valid_withNull_iff (distinct : schema.keys.Nodup) (passes : PassesNull schema)
    (typed : ∀ type ∈ schema.get? "type", (∃ name, type = .text name) ∨ ∃ names, type = Json.ofTexts names)
    (listed : ∀ listed ∈ schema.get? "enum", ∃ values, listed = .array values) :
    Valid .standard (.object (withNullType (withNullListed schema))) value ↔
      value = .null ∨ Valid .standard (.object schema) value := by
  have enum : (∀ listed ∈ (withNullListed schema).get? "enum", IsListed listed value) ↔
      value = .null ∨ ∀ listed ∈ schema.get? "enum", IsListed listed value := enum_withNullListed_iff listed
  have listedType : (withNullListed schema).get? "type" = schema.get? "type" :=
    get?_withNullListed_of_ne (by decide)
  cases found : schema.get? "type" with
  | some type =>
    obtain ⟨others, extended, there, each⟩ :=
      exists_withNullType (listedType.trans found) (typed type found)
    refine passes.valid_iff (fun keyword _ notType notEnum => ?_) ?_ ?_
    · rw [others keyword notType, get?_withNullListed_of_ne notEnum]
    · rw [there, found]
      simp only [Option.mem_def, Option.some.injEq, forall_eq']
      exact each value
    · rw [others "enum" (by decide)]
      exact enum
  | none =>
    -- Null becomes a choice here, beside an enumeration that lets it in already.
    have choice : withNullType (withNullListed schema) = orNull (withNullListed schema) := by
      rw [withNullType, listedType, found]
    have start : Leaves "type" schema schema := ⟨distinct, rfl⟩
    rw [choice, valid_orNull_iff (start.withNullListed (by decide)).distinct]
    have extended := passes.valid_iff (fun keyword _ _ notEnum => get?_withNullListed_of_ne notEnum)
      (by simp [listedType, found]) enum
    rw [extended]
    exact ⟨fun either => either.elim .inl id, .inr⟩

/-- Replacing the flag for null lets null in if the flag is set, and nothing else. -/
theorem valid_withNullable_iff (distinct : schema.keys.Nodup) (passes : PassesNull schema)
    (typed : ∀ type ∈ schema.get? "type", (∃ name, type = .text name) ∨ ∃ names, type = Json.ofTexts names)
    (listed : ∀ listed ∈ schema.get? "enum", ∃ values, listed = .array values) :
    Valid .standard (.object (withNullable schema)) value ↔
      (AdmitsNull .flagged schema ∧ value = .null) ∨ Valid .standard (.object schema) value := by
  have other : ∀ keyword ∈ ownKeywords ++ innerKeywords, keyword ≠ "nullable" := by decide
  have same : ∀ keyword ∈ ownKeywords ++ innerKeywords,
      (schema.erase "nullable").get? keyword = schema.get? keyword := fun keyword known => by
    rw [Members.get?_erase distinct, if_neg (other keyword known)]
  have unflagged : Valid .standard (.object (schema.erase "nullable")) value ↔
      Valid .standard (.object schema) value := valid_standard_congr same
  unfold withNullable
  split
  · next missing =>
    exact (or_iff_right fun admits => Option.some_ne_none _ (admits.1.2.symm.trans missing)).symm
  · next flag found =>
    dsimp only
    split
    · next set =>
      have admits : AdmitsNull .flagged schema := by
        cases flag with
        | bool value => exact ⟨rfl, Option.some.inj set ▸ found⟩
        | _ => cases set
      rw [and_iff_right admits, ← unflagged]
      exact valid_withNull_iff (Members.nodup_keys_erase distinct _) (passes.of_same same)
        (same "type" (by decide) ▸ typed) (same "enum" (by decide) ▸ listed)
    · next unset =>
      rw [unflagged]
      refine (or_iff_right fun admits => unset ?_).symm
      rw [← Option.some.inj (admits.1.2.symm.trans found)]
      rfl

/-- A value is valid against a schema that is read with flags if and only if it is valid against the schema
without them, where the schemas inside have no flags. -/
theorem valid_withoutFlags_iff (distinct : schema.keys.Nodup) (shaped : IsShaped schema) :
    Valid .standard (.object (withoutFlags schema)) value ↔
      (AdmitsNull .flagged schema ∧ value = .null) ∨
        (Satisfies .flagged schema value ∧ Contains (Valid .standard) schema value) := by
  have flag := leaves_withStrictSides distinct "nullable" (by decide)
  have type := (leaves_withStrictSides distinct "type" (by decide)).same
  have enum := (leaves_withStrictSides distinct "enum" (by decide)).same
  have required := (leaves_withStrictSides distinct "required" (by decide)).same
  have passes : PassesNull (withStrictSide .upper (withStrictSide .lower schema)) := {
    bounds := fun side => (keepsBounds_withStrictSides_iff distinct).mpr (shaped.keepsBounds_null side)
    required := required ▸ shaped.hasRequired_null
    contains := fun _ => (contains_withStrictSides_iff distinct).mpr shaped.contains_null }
  have admits : AdmitsNull .flagged (withStrictSide .upper (withStrictSide .lower schema)) ↔
      AdmitsNull .flagged schema := by
    rw [AdmitsNull, AdmitsNull, flag.same]
  rw [← admits, ← valid_withStrictSides_iff distinct]
  exact valid_withNullable_iff flag.distinct passes (type ▸ shaped.type) (enum ▸ shaped.enum)

end

/-! ### Schemas in a schema -/

section

variable {schema : Members} {value : Json}

theorem get?_normalizeMembers_of_own {keyword : String} (own : keyword ∈ "nullable" :: ownKeywords) :
    Members.get? (normalizeMembers schema) keyword = schema.get? keyword := by
  have plain : ∀ keyword ∈ "nullable" :: ownKeywords, schemaKeywords.contains keyword = false ∧
      schemaTableKeywords.contains keyword = false := by decide
  have kept : normalizeUnder keyword = id := by
    funext value
    rw [normalizeUnder, (plain keyword own).1, (plain keyword own).2]
    rfl
  rw [get?_normalizeMembers, kept, Option.map_id_fun, id_eq]

/-- A schema keeps its shape when those in it are replaced. -/
theorem IsShaped.normalizeMembers (shaped : IsShaped schema) : IsShaped (normalizeMembers schema) where
  type := by
    rw [get?_normalizeMembers_of_own (by decide)]
    exact shaped.type
  enum := by
    rw [get?_normalizeMembers_of_own (by decide)]
    exact shaped.enum
  bound side := by
    rw [get?_normalizeMembers_of_own (by cases side <;> decide)]
    exact shaped.bound side
  strict side := by
    rw [get?_normalizeMembers_of_own (by cases side <;> decide)]
    exact shaped.strict side
  required := by
    rw [get?_normalizeMembers_of_own (by decide)]
    exact shaped.required
  properties table found := by
    rw [get?_normalizeMembers] at found
    obtain ⟨before, written, rfl⟩ := Option.map_eq_some_iff.mp found
    obtain ⟨declared, rfl⟩ := shaped.properties before written
    exact ⟨_, rfl⟩
  others keyword restricts := by
    rw [keys_normalizeMembers]
    exact shaped.others keyword restricts

/-- Where one schema may stand, it is replaced like one that stands alone. -/
theorem IsDocumentSchema.normalizeListed {inner : Json} (described : IsDocumentSchema inner) :
    normalizeListed inner = normalize inner := by
  cases described <;> simp [OpenApi.normalizeListed, normalize]

theorem declares_normalizeMembers_iff (shaped : IsShaped schema) {name : String} :
    Declares (normalizeMembers schema) name ↔ Declares schema name := by
  have table : Members.get? (normalizeMembers schema) "properties" =
      (schema.get? "properties").map normalizeNamed := get?_normalizeMembers schema "properties"
  unfold Declares
  rw [table]
  constructor
  · rintro ⟨others, found, known⟩
    obtain ⟨before, written, same⟩ := Option.map_eq_some_iff.mp found
    obtain ⟨declared, rfl⟩ := shaped.properties before written
    obtain rfl := Json.object.inj same
    rw [keys_normalizeTable] at known
    exact ⟨declared, written, known⟩
  · rintro ⟨declared, written, known⟩
    refine ⟨normalizeTable declared, by rw [written]; rfl, ?_⟩
    rwa [keys_normalizeTable]

theorem hasProperties_normalizeTable_iff {flagged standard : Json → Json → Prop} {declared : Members}
    (each : ∀ name inner, declared.get? name = some inner →
      ∀ held, flagged inner held ↔ standard (normalize inner) held) :
    HasProperties standard (.object (normalizeTable declared)) value ↔
      HasProperties flagged (.object declared) value := by
  constructor
  · rintro ⟨others, same, valid⟩
    obtain rfl := Json.object.inj same
    refine ⟨declared, rfl, fun fields whole field there inner found => (each _ inner found _).mpr ?_⟩
    exact valid fields whole field there _ (by rw [get?_normalizeTable, found]; rfl)
  · rintro ⟨others, same, valid⟩
    obtain rfl := Json.object.inj same
    refine ⟨_, rfl, fun fields whole field there after found => ?_⟩
    rw [get?_normalizeTable] at found
    obtain ⟨inner, written, rfl⟩ := Option.map_eq_some_iff.mp found
    exact (each _ inner written _).mp (valid fields whole field there inner written)

/-- The values inside are judged alike when the schemas in a schema are replaced, if each of those judges
alike. -/
theorem contains_normalizeMembers_iff {flagged standard : Json → Json → Prop} (shaped : IsShaped schema)
    (properties : ∀ declared, schema.get? "properties" = some (.object declared) →
      ∀ name inner, Members.get? declared name = some inner →
        ∀ held, flagged inner held ↔ standard (normalize inner) held)
    (additional : ∀ inner, schema.get? "additionalProperties" = some inner →
      ∀ held, flagged inner held ↔ standard (normalizeListed inner) held)
    (items : ∀ inner, schema.get? "items" = some inner →
      ∀ held, flagged inner held ↔ standard (normalizeListed inner) held) :
    Contains standard (normalizeMembers schema) value ↔ Contains flagged schema value := by
  have replaced (keyword : String) {holds : Json → Prop} :
      (∀ after ∈ Members.get? (normalizeMembers schema) keyword, holds after) ↔
        ∀ inner ∈ schema.get? keyword, holds (normalizeUnder keyword inner) := by
    rw [get?_normalizeMembers, Option.forall_mem_map]
  have eachProperty : (∀ table ∈ Members.get? (normalizeMembers schema) "properties",
      HasProperties standard table value) ↔
        ∀ table ∈ schema.get? "properties", HasProperties flagged table value := by
    refine (replaced "properties").trans (forall₂_congr fun table found => ?_)
    obtain ⟨declared, rfl⟩ := shaped.properties table found
    exact hasProperties_normalizeTable_iff (properties declared found)
  have eachOther : (∀ inner ∈ Members.get? (normalizeMembers schema) "additionalProperties", ∀ fields,
      value = .object fields → ∀ field ∈ fields, ¬ Declares (normalizeMembers schema) field.1 →
        standard inner field.2) ↔
      ∀ inner ∈ schema.get? "additionalProperties", ∀ fields, value = .object fields → ∀ field ∈ fields,
        ¬ Declares schema field.1 → flagged inner field.2 := by
    simp only [declares_normalizeMembers_iff shaped]
    refine (replaced "additionalProperties").trans (forall₂_congr fun inner found => ?_)
    exact forall₅_congr fun _ _ field _ _ => (additional inner found field.2).symm
  have eachItem : (∀ inner ∈ Members.get? (normalizeMembers schema) "items", ∀ elements,
      value = .array elements → ∀ item ∈ elements, standard inner item) ↔
      ∀ inner ∈ schema.get? "items", ∀ elements, value = .array elements → ∀ item ∈ elements,
        flagged inner item := by
    refine (replaced "items").trans (forall₂_congr fun inner found => ?_)
    exact forall₄_congr fun _ _ item _ => (items inner found item).symm
  have noChoice {valid : Json → Json → Prop} {others : Members} (same : others.keys = schema.keys) :
      ∀ choices ∈ others.get? "anyOf", ∃ schemas, choices = .array schemas ∧
        ∃ inner ∈ schemas, valid inner value := by
    rw [Members.get?_eq_none_of_notMem (same ▸ shaped.others "anyOf" (by decide))]
    exact fun choices found => absurd found (Option.not_mem_none choices)
  constructor
  · intro contains
    exact ⟨eachProperty.mp contains.properties, eachOther.mp contains.additional,
      eachItem.mp contains.items, noChoice rfl⟩
  · intro contains
    exact ⟨eachProperty.mpr contains.properties, eachOther.mpr contains.additional,
      eachItem.mpr contains.items, noChoice (keys_normalizeMembers schema)⟩

/-- Replacing flags keeps what a schema allows: a value is valid against a schema that is read with flags if
and only if it is valid against the replaced schema by the rules that know no flags. -/
theorem valid_normalize_iff {schema : Json} (described : IsDocumentSchema schema) (value : Json) :
    Valid .flagged schema value ↔ Valid .standard (normalize schema) value := by
  induction described generalizing value with
  | always allowed => exact valid_bool_iff.trans valid_bool_iff.symm
  | @keywords schema distinct shaped properties additional items eachProperty ofAdditional ofItems =>
    have distinctInner : (Members.keys (normalizeMembers schema)).Nodup := by rwa [keys_normalizeMembers]
    have contains : Contains (Valid .standard) (normalizeMembers schema) value ↔
        Contains (Valid .flagged) schema value :=
      contains_normalizeMembers_iff shaped eachProperty
        (fun inner found held => (additional inner found).normalizeListed ▸ ofAdditional inner found held)
        (fun inner found held => (items inner found).normalizeListed ▸ ofItems inner found held)
    have satisfies : Satisfies .flagged (normalizeMembers schema) value ↔ Satisfies .flagged schema value :=
      satisfies_congr fun keyword own => get?_normalizeMembers_of_own (List.mem_cons_of_mem _ own)
    have flag : AdmitsNull .flagged (normalizeMembers schema) ↔ AdmitsNull .flagged schema := by
      rw [AdmitsNull, AdmitsNull, get?_normalizeMembers_of_own List.mem_cons_self]
    rw [normalize, valid_withoutFlags_iff distinctInner shaped.normalizeMembers, flag, satisfies, contains,
      valid_object_iff]

end

/-- The schema of items that may be null by a flag, beside an enumeration without null. -/
def flaggedItem : Members :=
  [("type", .text "integer"), ("minimum", Json.ofInt 0), ("exclusiveMinimum", .bool true),
    ("enum", .array [Json.ofInt 1]), ("nullable", .bool true)]

/-- A schema of such items that may be null by a flag, beside no type. -/
def flaggedSchema : Json :=
  .object [("nullable", .bool true), ("items", .object flaggedItem)]

/-- An array with null in it is valid against the schema, and so it is against the replaced one. -/
theorem valid_normalize_iff_flaggedSchema :
    IsDocumentSchema flaggedSchema ∧
      (Valid .flagged flaggedSchema (.array [.null]) ↔
        Valid .standard (normalize flaggedSchema) (.array [.null])) ∧
      Valid .standard (normalize flaggedSchema) (.array [.null]) := by
  have item : IsDocumentSchema (.object flaggedItem) := by
    refine .keywords (by decide) ⟨?_, ?_, fun side => ?_, fun side => ?_, ?_, ?_, by decide⟩ ?_ ?_ ?_
    case refine_3 | refine_4 => cases side <;> simp [flaggedItem, Side.keyword, Side.strictKeyword, Json.ofInt]
    all_goals simp [flaggedItem]
  have described : IsDocumentSchema flaggedSchema := by
    refine .keywords (by decide) ⟨?_, ?_, fun side => ?_, fun side => ?_, ?_, ?_, by decide⟩ ?_ ?_ ?_
    case refine_3 | refine_4 => cases side <;> simp [Side.keyword, Side.strictKeyword]
    all_goals simp [item]
  have null : Valid .flagged (.object flaggedItem) .null :=
    valid_object_iff.mpr (.inl ⟨⟨rfl, rfl⟩, rfl⟩)
  have valid : Valid .flagged flaggedSchema (.array [.null]) := by
    refine valid_object_iff.mpr (.inr ⟨⟨?_, ?_, fun side => ?_, ?_⟩, ?_, ?_, ?_, ?_⟩)
    case refine_3 =>
      cases side <;> constructor <;> simp [strictLimit?, Side.keyword, Side.strictKeyword]
    all_goals simp [null]
  have same := valid_normalize_iff described (.array [.null])
  exact ⟨described, same, same.mp valid⟩

end ApiSurface.OpenApi
