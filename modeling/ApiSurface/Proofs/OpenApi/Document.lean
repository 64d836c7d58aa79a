/-
This file proves that no key repeats in a description that is read, whatever its text repeats: both
formats put the members of an object one after the other, so a later one takes the place of an earlier
one with its key. What is proved of descriptions without repeated keys holds of all that are read.
-/

import ApiSurface.OpenApi.Document
import ApiSurface.Proofs.Json.Reader

namespace ApiSurface

open Json

/-! ### Values of texts -/

mutual

theorem Yaml.hasDistinctKeys_toJson (value : Yaml) : value.toJson.HasDistinctKeys := by
  match value with
  | .null => exact hasDistinctKeys_null
  | .bool value => exact hasDistinctKeys_bool value
  | .number value =>
    cases value with
    | int value => exact hasDistinctKeys_number (.int value)
    | double value => exact hasDistinctKeys_number (.double value)
    | _ => exact hasDistinctKeys_null
  | .text value => exact hasDistinctKeys_text value
  | .sequence items => exact hasDistinctKeys_array_iff.mpr (Yaml.hasDistinctKeys_itemsToJson items)
  | .mapping entries => exact hasDistinctKeys_ofList (Yaml.hasDistinctKeys_entriesToJson entries)
  | .tagged _ value => exact Yaml.hasDistinctKeys_toJson value

theorem Yaml.hasDistinctKeys_itemsToJson (items : List Yaml) :
    ∀ item ∈ Yaml.itemsToJson items, item.HasDistinctKeys := by
  match items with
  | [] => exact fun _ absent => absurd absent List.not_mem_nil
  | item :: others =>
    exact List.forall_mem_cons.mpr
      ⟨Yaml.hasDistinctKeys_toJson item, Yaml.hasDistinctKeys_itemsToJson others⟩

theorem Yaml.hasDistinctKeys_entriesToJson (entries : List (Yaml × Yaml)) :
    ∀ member ∈ Yaml.entriesToJson entries, member.2.HasDistinctKeys := by
  match entries with
  | [] => exact fun _ absent => absurd absent List.not_mem_nil
  | (key, value) :: others =>
    exact List.forall_mem_cons.mpr
      ⟨Yaml.hasDistinctKeys_toJson value, Yaml.hasDistinctKeys_entriesToJson others⟩

end

namespace OpenApi

theorem Format.hasDistinctKeys_of_read? {format : Format} {content : String} {value : Json}
    (read : format.read? content = some value) : value.HasDistinctKeys := by
  cases format with
  | json =>
    obtain ⟨written, -, rfl⟩ := Option.map_eq_some_iff.mp read
    exact hasDistinctKeys_withoutRepeats written
  | yaml =>
    obtain ⟨tokens, -, read⟩ := Option.bind_eq_some_iff.mp read
    obtain ⟨node, -, read⟩ := Option.bind_eq_some_iff.mp read
    obtain ⟨written, -, made⟩ := Option.bind_eq_some_iff.mp read
    obtain rfl := Option.some.inj made
    exact Yaml.hasDistinctKeys_toJson written

/-! ### Descriptions -/

/-- Every description that is read from a text is made from a value in which no key repeats. -/
theorem Document.exists_ofJson_of_parse {content : String} {format : Format} {document : Document}
    (parsed : Document.parse content format = .ok document) :
    ∃ value, format.read? content = some value ∧ value.HasDistinctKeys ∧
      Document.ofJson value = .ok document := by
  unfold Document.parse at parsed
  split at parsed
  · cases parsed
  · next value read => exact ⟨value, read, Format.hasDistinctKeys_of_read? read, parsed⟩

theorem Document.root_eq_of_ofJson {value : Json} {document : Document}
    (resolved : Document.ofJson value = .ok document) : document.root = resolve value := by
  unfold Document.ofJson at resolved
  split at resolved
  · cases resolved
  · cases resolved
  · obtain rfl := Except.ok.inj resolved
    rfl

end OpenApi

end ApiSurface
