/-
This file proves which parameters make up a body. The properties of a schema have pairwise different
names, as the keys of every object do, and so do the parameters of every body that is made from them.
Of a multipart form the files are parted from all else.
-/

import ApiSurface.Client.Build
import ApiSurface.Proofs.Json.Distinct

namespace ApiSurface.Operation.Body

open Json (Members)

variable {schema : Json} {description : String} {required : Bool}

/-- The parameters that properties become have pairwise different names. -/
theorem nodup_ofProperties (distinct : schema.HasDistinctKeys) (required : Bool) :
    ((Parameter.ofProperties schema required).map Parameter.name).Nodup := by
  have keys : ((((schema.asObject?.getD []).get? "properties").bind Json.asObject?).getD []).keys.Nodup := by
    cases found : (schema.asObject?.getD []).get? "properties" with
    | none => exact List.nodup_nil
    | some properties => exact (distinct.members.of_get? found).members.nodup_keys
  have names : (Parameter.ofProperties schema required).map Parameter.name =
      ((((schema.asObject?.getD []).get? "properties").bind Json.asObject?).getD []
        |>.filter fun member => (member.2.get? "readOnly").bind Json.asBool? != some true).map
        Prod.fst := by
    rw [Parameter.ofProperties, List.map_map]
    rfl
  rw [names]
  exact (List.filter_sublist.map _).nodup keys

theorem nodup_ofJson (contentType : String) (distinct : schema.HasDistinctKeys) :
    ((Client.bodyParameters (ofJson contentType schema description required)).map
      Parameter.name).Nodup := by
  unfold ofJson
  dsimp only
  split
  · exact nodup_ofProperties distinct required
  · split
    · exact List.nodup_singleton _
    · split <;> exact List.nodup_singleton _

theorem hasDistinctKeys_mediaSchema {media : Json} (distinct : media.HasDistinctKeys) :
    (mediaSchema media).HasDistinctKeys := by
  unfold mediaSchema
  cases found : media.get? "schema" with
  | none => exact Json.hasDistinctKeys_nothing
  | some schema => exact distinct.of_get? found

theorem exists_mem_of_findMedia? {content : Members} {wanted : String} {media : Json}
    (found : findMedia? content wanted = some media) : ∃ written, (written, media) ∈ content := by
  obtain ⟨⟨written, value⟩, inside, rfl⟩ := Option.map_eq_some_iff.mp found
  exact ⟨written, List.mem_of_find?_eq_some inside⟩

/-- There is no body, or one that is made from one of the media types. -/
theorem ofContent_cases (content : Members) (description : String) (required : Bool) :
    ofContent content description required = .none ∨
      ∃ written media, (written, media) ∈ content ∧
        let fields := Parameter.ofProperties (mediaSchema media) required
        (ofContent content description required =
            .multipart (fields.filter fun field => !field.isFile)
              (fields.filter fun field => field.isFile) ∨
          ofContent content description required = .form fields ∨
          ofContent content description required =
            ofJson (mediaType written) (mediaSchema media) description required ∨
          ofContent content description required =
            ofOther written (mediaSchema media) description required) := by
  unfold ofContent
  cases multipart : findMedia? content "multipart/form-data" with
  | some media =>
    obtain ⟨written, inside⟩ := exists_mem_of_findMedia? multipart
    exact .inr ⟨written, media, inside, .inl rfl⟩
  | none =>
    cases form : findMedia? content "application/x-www-form-urlencoded" with
    | some media =>
      obtain ⟨written, inside⟩ := exists_mem_of_findMedia? form
      exact .inr ⟨written, media, inside, .inr (.inl rfl)⟩
    | none =>
      cases json : content.find? fun member => isJson member.1 with
      | some member =>
        exact .inr ⟨member.1, member.2, List.mem_of_find?_eq_some json, .inr (.inr (.inl rfl))⟩
      | none =>
        cases content with
        | nil => exact .inl rfl
        | cons first rest =>
          exact .inr ⟨first.1, first.2, List.mem_cons_self, .inr (.inr (.inr rfl))⟩

theorem nodup_ofContent {content : Members} (distinct : (Json.object content).HasDistinctKeys) :
    ((Client.bodyParameters (ofContent content description required)).map Parameter.name).Nodup := by
  rcases ofContent_cases content description required with none | ⟨written, media, inside, made⟩
  · rw [none]
    exact List.nodup_nil
  have schemaDistinct := hasDistinctKeys_mediaSchema (distinct.of_mem inside)
  have names := nodup_ofProperties schemaDistinct required
  rcases made with multipart | form | json | other
  · have parted := List.filter_append_perm (fun field : Parameter => !field.isFile)
      (Parameter.ofProperties (mediaSchema media) required)
    simp only [Bool.not_not] at parted
    rw [multipart]
    exact (parted.map _).nodup_iff.mpr names
  · rw [form]
    exact names
  · rw [json]
    exact nodup_ofJson _ schemaDistinct
  · rw [other]
    exact List.nodup_singleton _

theorem isFile_of_ofContent {content : Members} {fields files : List Parameter}
    (made : ofContent content description required = .multipart fields files) :
    (∀ field ∈ fields, field.isFile = false) ∧ ∀ file ∈ files, file.isFile = true := by
  have noJson (contentType : String) (schema : Json) :
      ofJson contentType schema description required ≠ .multipart fields files := by
    unfold ofJson
    dsimp only
    split
    · exact nofun
    · split
      · exact nofun
      · split <;> exact nofun
  rcases ofContent_cases content description required with
    none | ⟨written, media, -, multipart | form | json | other⟩
  · cases none.symm.trans made
  · obtain ⟨rfl, rfl⟩ := Body.multipart.inj (multipart.symm.trans made)
    constructor
    · intro field member
      simpa using (List.mem_filter.mp member).2
    · intro file member
      exact (List.mem_filter.mp member).2
  · cases form.symm.trans made
  · exact absurd (json.symm.trans made) (noJson _ _)
  · cases other.symm.trans made

/-- The parameters of a body have pairwise different names. -/
theorem nodup_ofOperation {raw : Members} (distinct : (Json.object raw).HasDistinctKeys) :
    ((Client.bodyParameters (ofOperation raw)).map Parameter.name).Nodup := by
  unfold ofOperation
  split
  · exact List.nodup_nil
  · next body found =>
    split
    · next content inside =>
      exact nodup_ofContent ((distinct.of_get? found).of_get? inside)
    · exact List.nodup_nil

/-- No plain field of a multipart form is a file, and all the others are. -/
theorem isFile_of_multipart {raw : Members} {fields files : List Parameter}
    (made : ofOperation raw = .multipart fields files) :
    (∀ field ∈ fields, field.isFile = false) ∧ ∀ file ∈ files, file.isFile = true := by
  unfold ofOperation at made
  split at made
  · cases made
  · split at made
    · exact isFile_of_ofContent made
    · cases made

end ApiSurface.Operation.Body
