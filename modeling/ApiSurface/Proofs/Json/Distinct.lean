/-
This file says of a value that no object in it has two members with the same key, as it is with every
value that is read or put together member by member. Whatever sits inside of such a value is of the
same kind.
-/

import ApiSurface.Proofs.Json.Nesting

namespace ApiSurface.Json

/-- No object inside of a value has two members with the same key. -/
def HasDistinctKeys (value : Json) : Prop :=
  ∀ depth members, SitsBelow value depth (.object members) → (Members.keys members).Nodup

namespace HasDistinctKeys

variable {value inner : Json} {members : Members} {key : String}

theorem nodup_keys (distinct : (Json.object members).HasDistinctKeys) : members.keys.Nodup :=
  distinct 0 members (.here _)

theorem of_sitsBelow (distinct : value.HasDistinctKeys) {depth : Nat}
    (below : SitsBelow value depth inner) : inner.HasDistinctKeys :=
  fun _ members further => distinct _ members (below.trans further)

theorem of_mem (distinct : (Json.object members).HasDistinctKeys) (member : (key, value) ∈ members) :
    value.HasDistinctKeys :=
  distinct.of_sitsBelow (.member member (.here value))

theorem of_get? (distinct : value.HasDistinctKeys) (found : value.get? key = some inner) :
    inner.HasDistinctKeys := by
  cases value with
  | object members => exact distinct.of_mem (Members.mem_of_get? found)
  | _ => cases found

end HasDistinctKeys

theorem hasDistinctKeys_object_iff {members : Members} :
    (Json.object members).HasDistinctKeys ↔
      members.keys.Nodup ∧ ∀ member ∈ members, member.2.HasDistinctKeys := by
  constructor
  · intro distinct
    exact ⟨distinct.nodup_keys, fun member inside => distinct.of_mem inside⟩
  · rintro ⟨nodup, each⟩ depth inner below
    cases below with
    | here => exact nodup
    | member inside further => exact each _ inside _ inner further

theorem hasDistinctKeys_nothing : (Json.object []).HasDistinctKeys :=
  hasDistinctKeys_object_iff.mpr ⟨List.nodup_nil, nofun⟩

/-- Members that are put one after the other leave no key repeated. -/
theorem hasDistinctKeys_ofList {members : Members}
    (each : ∀ member ∈ members, member.2.HasDistinctKeys) :
    (Json.object (Members.ofList members)).HasDistinctKeys :=
  hasDistinctKeys_object_iff.mpr ⟨Members.nodup_keys_ofList members,
    fun member inside => each member (Members.mem_of_mem_ofList inside)⟩

theorem hasDistinctKeys_array_iff {items : List Json} :
    (Json.array items).HasDistinctKeys ↔ ∀ item ∈ items, item.HasDistinctKeys := by
  constructor
  · intro distinct item inside
    exact distinct.of_sitsBelow (.item inside (.here item))
  · intro each depth inner below
    cases below with
    | item inside further => exact each _ inside _ inner further

@[simp]
theorem hasDistinctKeys_text (text : String) : (Json.text text).HasDistinctKeys := by
  intro depth members below
  cases below

@[simp]
theorem hasDistinctKeys_bool (value : Bool) : (Json.bool value).HasDistinctKeys := by
  intro depth members below
  cases below

@[simp]
theorem hasDistinctKeys_null : Json.null.HasDistinctKeys := by
  intro depth members below
  cases below

@[simp]
theorem hasDistinctKeys_number (number : Number) : (Json.number number).HasDistinctKeys := by
  intro depth members below
  cases below

/-- The members of a value, which has none if it is not an object. -/
theorem HasDistinctKeys.members {value : Json} (distinct : value.HasDistinctKeys) :
    (Json.object (value.asObject?.getD [])).HasDistinctKeys := by
  cases value with
  | object members => exact distinct
  | _ => exact hasDistinctKeys_nothing

end ApiSurface.Json
