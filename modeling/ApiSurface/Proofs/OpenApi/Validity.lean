/-
This file says which values a schema allows, as the rules of schemas have it and not as a validator checks
them. The rules come in two dialects that differ in flags only: where flags are read, a schema may be marked
to allow null besides, and a strict bound may be a flag that makes the bound beside it strict.

What a schema says of the value itself is kept apart from what it says of the values inside, because the
replacement of flags changes the former and the schemas of the latter.
-/

import ApiSurface.Json.Quantity
import ApiSurface.Json.Value
import ApiSurface.OpenApi.Dialect
import ApiSurface.Proofs.Json.Members
import ApiSurface.Schema.Validation

namespace ApiSurface.OpenApi

open Json (Members)

/-! ### Keywords about the value itself -/

/-- The rules by which a schema is read. -/
inductive Dialect where
  /-- Flags mark strict bounds and null. -/
  | flagged
  /-- A strict bound is a number, and null is a type. -/
  | standard
  deriving DecidableEq

/-- A value has the type of a name. -/
def IsOfType (name : String) (value : Json) : Prop :=
  ∃ type, Schema.TypeName.ofName? name = some type ∧ type.holds value = true

/-- A value has a type or one of several. -/
def HasType (type value : Json) : Prop :=
  match type with
  | .text name => IsOfType name value
  | .array names => ∃ name, .text name ∈ names ∧ IsOfType name value
  | _ => False

/-- A value equals one of those in a list. -/
def IsListed (listed value : Json) : Prop :=
  ∃ values, listed = .array values ∧ ∃ other ∈ values, Json.equal other value = true

/-- A number keeps a limit. A value of another kind keeps all of them. -/
def KeepsLimit (bound : Schema.Bound) (limit value : Json) : Prop :=
  ∃ number, limit = .number number ∧ ∀ held, value = .number held → bound.keeps number held = true

/-- An object has members of all names in a list. A value of another kind needs none. -/
def HasRequired (names value : Json) : Prop :=
  ∃ required, names = Json.ofTexts required ∧
    ∀ fields, value = .object fields → ∀ name ∈ required, name ∈ Members.keys fields

/-- The side on which a number is bounded. -/
inductive Side where
  | lower
  | upper
  deriving DecidableEq

namespace Side

/-- The bound on a side that a number may reach. -/
def bound : Side → Schema.Bound
  | lower => .minimum
  | upper => .maximum

/-- The bound on a side that a number may not reach. -/
def strictBound : Side → Schema.Bound
  | lower => .exclusiveMinimum
  | upper => .exclusiveMaximum

/-- The keyword of the bound. -/
def keyword : Side → String
  | lower => "minimum"
  | upper => "maximum"

/-- The keyword of the strict bound. -/
def strictKeyword : Side → String
  | lower => "exclusiveMinimum"
  | upper => "exclusiveMaximum"

end Side

/-- The limit of the strict bound on a side. A flag that is set takes it from the bound beside it; without
one, and if the flag is not set, there is none. -/
def strictLimit? (dialect : Dialect) (schema : Members) (side : Side) : Option Json :=
  match dialect, schema.get? side.strictKeyword with
  | .flagged, some (.bool true) => schema.get? side.keyword
  | .flagged, some (.bool false) => none
  | _, limit => limit

/-- A value keeps both bounds on a side. -/
structure KeepsBounds (dialect : Dialect) (schema : Members) (value : Json) (side : Side) : Prop where
  bound : ∀ limit ∈ schema.get? side.keyword, KeepsLimit side.bound limit value
  strict : ∀ limit ∈ strictLimit? dialect schema side, KeepsLimit side.strictBound limit value

/-- A value satisfies the keywords of a schema that say nothing of the values inside. -/
structure Satisfies (dialect : Dialect) (schema : Members) (value : Json) : Prop where
  type : ∀ type ∈ schema.get? "type", HasType type value
  enum : ∀ listed ∈ schema.get? "enum", IsListed listed value
  bounds : ∀ side, KeepsBounds dialect schema value side
  required : ∀ names ∈ schema.get? "required", HasRequired names value

/-! ### Keywords about the values inside -/

/-- The members of an object with declared names are valid against their schemas. -/
def HasProperties (valid : Json → Json → Prop) (table value : Json) : Prop :=
  ∃ declared, table = .object declared ∧ ∀ fields, value = .object fields →
    ∀ field ∈ fields, ∀ inner ∈ Members.get? declared field.1, valid inner field.2

/-- A schema declares a property. -/
def Declares (schema : Members) (name : String) : Prop :=
  ∃ declared, schema.get? "properties" = some (.object declared) ∧ name ∈ Members.keys declared

/-- The members of an object, the items of an array and, for a choice, the value itself are valid against the
schemas that stand in a schema. -/
structure Contains (valid : Json → Json → Prop) (schema : Members) (value : Json) : Prop where
  properties : ∀ table ∈ schema.get? "properties", HasProperties valid table value
  additional : ∀ inner ∈ schema.get? "additionalProperties", ∀ fields, value = .object fields →
    ∀ field ∈ fields, ¬ Declares schema field.1 → valid inner field.2
  items : ∀ inner ∈ schema.get? "items", ∀ items, value = .array items → ∀ item ∈ items, valid inner item
  choice : ∀ choices ∈ schema.get? "anyOf", ∃ schemas, choices = .array schemas ∧
    ∃ inner ∈ schemas, valid inner value

/-! ### Validity -/

/-- A schema is marked to allow null besides what it allows. -/
def AdmitsNull (dialect : Dialect) (schema : Members) : Prop :=
  dialect = .flagged ∧ schema.get? "nullable" = some (.bool true)

/-- A value is valid against a schema. The schemas in a schema are smaller than it, so this goes down to the
values in the value. -/
def Valid (dialect : Dialect) (schema value : Json) : Prop :=
  match schema with
  | .bool allowed => allowed = true
  | .object members =>
    (AdmitsNull dialect members ∧ value = .null) ∨
      (Satisfies dialect members value ∧
        Contains (fun inner held => ∃ _ : sizeOf inner < sizeOf members, Valid dialect inner held)
          members value)
  | _ => False
termination_by sizeOf schema

section

variable {dialect : Dialect} {first second : Json → Json → Prop} {schema : Members} {value : Json}

/-- Only the schemas in a schema matter, and they are smaller. -/
theorem Contains.mono (contains : Contains first schema value)
    (same : ∀ inner held, sizeOf inner < sizeOf schema → first inner held → second inner held) :
    Contains second schema value where
  properties table found := by
    obtain ⟨declared, rfl, each⟩ := contains.properties table found
    refine ⟨declared, rfl, fun fields whole field there inner known => same _ _ ?_
      (each fields whole field there inner known)⟩
    have outer := Members.sizeOf_get? found
    have deeper := Members.sizeOf_get? known
    rw [Json.object.sizeOf_spec] at outer
    omega
  additional inner found fields whole field there new :=
    same _ _ (Members.sizeOf_get? found) (contains.additional inner found fields whole field there new)
  items inner found items whole item there :=
    same _ _ (Members.sizeOf_get? found) (contains.items inner found items whole item there)
  choice choices found := by
    obtain ⟨schemas, rfl, inner, there, valid⟩ := contains.choice choices found
    refine ⟨schemas, rfl, inner, there, same _ _ ?_ valid⟩
    have outer := Members.sizeOf_get? found
    have deeper := List.sizeOf_lt_of_mem there
    rw [Json.array.sizeOf_spec] at outer
    omega

theorem valid_bool_iff {allowed : Bool} : Valid dialect (.bool allowed) value ↔ allowed = true := by
  rw [Valid]

theorem valid_object_iff : Valid dialect (.object schema) value ↔
    (AdmitsNull dialect schema ∧ value = .null) ∨
      (Satisfies dialect schema value ∧ Contains (Valid dialect) schema value) := by
  rw [Valid]
  refine or_congr_right (and_congr_right fun _ => ⟨fun contains => ?_, fun contains => ?_⟩)
  · exact contains.mono fun _ _ _ => fun ⟨_, valid⟩ => valid
  · exact contains.mono fun _ _ smaller valid => ⟨smaller, valid⟩

theorem valid_standard_iff : Valid .standard (.object schema) value ↔
    Satisfies .standard schema value ∧ Contains (Valid .standard) schema value := by
  rw [valid_object_iff]
  exact or_iff_right fun admits => Dialect.noConfusion admits.1.1

end

/-! ### Other members -/

/-- The keywords that say nothing of the values inside. -/
def ownKeywords : List String :=
  ["type", "enum", "minimum", "maximum", "exclusiveMinimum", "exclusiveMaximum", "required"]

/-- The keywords under which schemas of the values inside stand. -/
def innerKeywords : List String :=
  ["properties", "additionalProperties", "items", "anyOf"]

section

variable {dialect : Dialect} {valid : Json → Json → Prop} {first second : Members} {value : Json}

theorem keepsBounds_congr {side : Side} (bound : first.get? side.keyword = second.get? side.keyword)
    (strict : first.get? side.strictKeyword = second.get? side.strictKeyword) :
    KeepsBounds dialect first value side ↔ KeepsBounds dialect second value side := by
  have limit : strictLimit? dialect first side = strictLimit? dialect second side := by
    simp only [strictLimit?, bound, strict]
  exact ⟨fun keeps => ⟨bound ▸ keeps.bound, limit ▸ keeps.strict⟩,
    fun keeps => ⟨bound ▸ keeps.bound, limit ▸ keeps.strict⟩⟩

theorem Satisfies.of_same (same : ∀ keyword ∈ ownKeywords, first.get? keyword = second.get? keyword)
    (satisfies : Satisfies dialect first value) : Satisfies dialect second value where
  type := same "type" (by decide) ▸ satisfies.type
  enum := same "enum" (by decide) ▸ satisfies.enum
  bounds side := (keepsBounds_congr (same _ (by cases side <;> decide))
    (same _ (by cases side <;> decide))).mp (satisfies.bounds side)
  required := same "required" (by decide) ▸ satisfies.required

theorem Contains.of_same (same : ∀ keyword ∈ innerKeywords, first.get? keyword = second.get? keyword)
    (contains : Contains valid first value) : Contains valid second value where
  properties := same "properties" (by decide) ▸ contains.properties
  additional := by
    have declares (name : String) : Declares first name ↔ Declares second name := by
      rw [Declares, Declares, same "properties" (by decide)]
    simp only [← declares]
    exact same "additionalProperties" (by decide) ▸ contains.additional
  items := same "items" (by decide) ▸ contains.items
  choice := same "anyOf" (by decide) ▸ contains.choice

theorem satisfies_congr (same : ∀ keyword ∈ ownKeywords, first.get? keyword = second.get? keyword) :
    Satisfies dialect first value ↔ Satisfies dialect second value :=
  ⟨.of_same same, .of_same fun keyword known => (same keyword known).symm⟩

theorem contains_congr (same : ∀ keyword ∈ innerKeywords, first.get? keyword = second.get? keyword) :
    Contains valid first value ↔ Contains valid second value :=
  ⟨.of_same same, .of_same fun keyword known => (same keyword known).symm⟩

theorem valid_standard_congr
    (same : ∀ keyword ∈ ownKeywords ++ innerKeywords, first.get? keyword = second.get? keyword) :
    Valid .standard (.object first) value ↔ Valid .standard (.object second) value := by
  rw [valid_standard_iff, valid_standard_iff]
  exact and_congr (satisfies_congr fun keyword known => same keyword (List.mem_append_left _ known))
    (contains_congr fun keyword known => same keyword (List.mem_append_right _ known))

/-- Members that hold none of the keywords about the value itself, but for the type, are satisfied by every
value of that type. -/
theorem satisfies_of_none
    (missing : ∀ keyword ∈ ownKeywords, keyword ≠ "type" → first.get? keyword = none)
    (type : ∀ type ∈ first.get? "type", HasType type value) : Satisfies .standard first value := by
  have nothing {keyword : String} (known : keyword ∈ ownKeywords) (other : keyword ≠ "type")
      {holds : Json → Prop} : ∀ held ∈ first.get? keyword, holds held := by
    rw [missing keyword known other]
    exact fun held there => absurd there (Option.not_mem_none held)
  exact ⟨type, nothing (by decide) (by decide),
    fun side => by
      cases side <;> exact ⟨nothing (by decide) (by decide), nothing (by decide) (by decide)⟩,
    nothing (by decide) (by decide)⟩

/-- Members that hold none of the keywords about the values inside, but for a choice, say no more of them
than the choice does. -/
theorem contains_of_none
    (missing : ∀ keyword ∈ innerKeywords, keyword ≠ "anyOf" → first.get? keyword = none)
    (choice : ∀ choices ∈ first.get? "anyOf", ∃ schemas, choices = .array schemas ∧
      ∃ inner ∈ schemas, valid inner value) : Contains valid first value := by
  have nothing {keyword : String} (known : keyword ∈ innerKeywords) (other : keyword ≠ "anyOf")
      {holds : Json → Prop} : ∀ held ∈ first.get? keyword, holds held := by
    rw [missing keyword known other]
    exact fun held there => absurd there (Option.not_mem_none held)
  exact ⟨nothing (by decide) (by decide), nothing (by decide) (by decide),
    nothing (by decide) (by decide), choice⟩

end

end ApiSurface.OpenApi
