/-
This file proves where the schemas and the examples of parameters come from. Each of them stands
somewhere in the document as it was resolved, or is the schema that allows anything, so whatever holds of
every value of the document holds of them.
-/

import ApiSurface.Proofs.Client.Coherence
import ApiSurface.Proofs.Keyed
import ApiSurface.Proofs.Operation.Body

namespace ApiSurface

open Json (Members SitsBelow)

/-! ### Values -/

/-- A value stands somewhere in a document, or is an object without members. -/
def StandsIn (root value : Json) : Prop :=
  (∃ depth, SitsBelow root depth value) ∨ value = .object []

namespace StandsIn

variable {root value inner : Json} {key : String}

theorem member {members : Members} (stands : StandsIn root (.object members))
    (inside : (key, value) ∈ members) : StandsIn root value := by
  rcases stands with ⟨depth, below⟩ | nothing
  · exact .inl ⟨_, below.trans (.member inside (.here value))⟩
  · rw [Json.object.inj nothing] at inside
    exact absurd inside List.not_mem_nil

theorem item {items : List Json} (stands : StandsIn root (.array items)) (inside : value ∈ items) :
    StandsIn root value := by
  rcases stands with ⟨depth, below⟩ | nothing
  · exact .inl ⟨_, below.trans (.item inside (.here value))⟩
  · exact Json.noConfusion nothing

theorem get? (stands : StandsIn root value) (found : value.get? key = some inner) :
    StandsIn root inner := by
  cases value with
  | object members => exact stands.member (Members.mem_of_get? found)
  | _ => cases found

theorem firstAt? (stands : StandsIn root value)
    (found : Operation.Parameter.firstAt? value key = some inner) : StandsIn root inner := by
  unfold Operation.Parameter.firstAt? at found
  split at found
  · next name first rest there =>
    obtain rfl := Option.some.inj found
    exact (stands.get? there).member List.mem_cons_self
  · cases found

theorem asObject? (stands : StandsIn root value) :
    StandsIn root (.object (value.asObject?.getD [])) := by
  cases value with
  | object members => exact stands
  | _ => exact .inr rfl

theorem itemsAt {members : Members} (stands : StandsIn root (.object members)) :
    ∀ item ∈ Operation.itemsAt members key, StandsIn root item := by
  intro item inside
  unfold Operation.itemsAt at inside
  cases found : members.get? key with
  | none =>
    rw [found] at inside
    exact absurd inside List.not_mem_nil
  | some value =>
    rw [found] at inside
    cases value with
    | array items => exact (stands.member (Members.mem_of_get? found)).item inside
    | _ => exact absurd inside List.not_mem_nil

end StandsIn

namespace Operation

variable {root schema : Json}

/-! ### Parameters -/

/-- The schema and the example of a parameter stand in a document. -/
def Parameter.IsFrom (root : Json) (parameter : Parameter) : Prop :=
  StandsIn root parameter.schema ∧ ∀ example_ ∈ parameter.example?, StandsIn root example_

/-- A parameter whose example is that of its schema. -/
theorem Parameter.isFrom_of_schema {parameter : Parameter} (stands : StandsIn root parameter.schema)
    (same : parameter.example? = parameter.schema.get? "example") : parameter.IsFrom root :=
  ⟨stands, fun _ given => stands.get? (same.symm.trans given)⟩

theorem Parameter.isFrom_ofDeclaration (name : String) {declaration : Json}
    (stands : StandsIn root declaration) : (ofDeclaration name declaration).IsFrom root := by
  have schema : StandsIn root (schemaOf declaration) := by
    unfold schemaOf
    split
    · next found => exact stands.get? found
    · cases found : (firstAt? declaration "content").bind fun media => media.get? "schema" with
      | none => exact .inr rfl
      | some schema =>
        obtain ⟨media, first, there⟩ := Option.bind_eq_some_iff.mp found
        exact (stands.firstAt? first).get? there
  refine ⟨schema, fun example_ given => ?_⟩
  replace given : exampleOf? declaration (schemaOf declaration) = some example_ := given
  unfold exampleOf? at given
  split at given
  · next found =>
    obtain rfl := Option.some.inj given
    exact stands.get? found
  · split at given
    · next found =>
      obtain rfl := Option.some.inj given
      obtain ⟨first, there, value⟩ := Option.bind_eq_some_iff.mp found
      exact (stands.firstAt? there).get? value
    · exact schema.get? given

theorem isFrom_of_sortParameters {label : String} {declarations : List Json}
    (stand : ∀ declaration ∈ declarations, StandsIn root declaration) {inPath inQuery : List Parameter}
    (sorted : sortParameters label declarations = .ok (inPath, inQuery)) :
    ∀ parameter ∈ inPath ++ inQuery, parameter.IsFrom root := by
  induction declarations generalizing inPath inQuery with
  | nil =>
    obtain ⟨rfl, rfl⟩ := Prod.mk.inj (Except.ok.inj sorted)
    exact fun parameter member => absurd member List.not_mem_nil
  | cons declaration rest inductionHypothesis =>
    unfold sortParameters at sorted
    split at sorted
    · cases sorted
    · next name _ =>
      obtain ⟨⟨pathRest, queryRest⟩, further, sorted⟩ := bind_eq_ok.mp sorted
      have others :=
        inductionHypothesis (fun _ member => stand _ (List.mem_cons_of_mem _ member)) further
      have first := Parameter.isFrom_ofDeclaration name (stand declaration List.mem_cons_self)
      dsimp only at sorted
      split at sorted <;> obtain ⟨rfl, rfl⟩ := Prod.mk.inj (Except.ok.inj sorted)
      · exact List.forall_mem_cons.mpr ⟨first, others⟩
      · rw [List.forall_mem_append] at others ⊢
        exact ⟨others.1, List.forall_mem_cons.mpr ⟨first, others.2⟩⟩
      · exact others

/-! ### Bodies -/

theorem Parameter.isFrom_ofProperties (stands : StandsIn root schema) (required : Bool) :
    ∀ parameter ∈ ofProperties schema required, parameter.IsFrom root := by
  intro parameter inside
  obtain ⟨⟨name, property⟩, writable, rfl⟩ := List.mem_map.mp inside
  refine isFrom_of_schema (?_ : StandsIn root property) rfl
  have there := (List.mem_filter.mp writable).1
  cases found : Members.get? (schema.asObject?.getD []) "properties" with
  | none =>
    rw [found] at there
    exact absurd there List.not_mem_nil
  | some properties =>
    rw [found] at there
    exact (stands.asObject?.member (Members.mem_of_get? found)).asObject?.member there

theorem Body.isFrom_ofJson (stands : StandsIn root schema) (contentType description : String)
    (required : Bool) :
    ∀ parameter ∈ Client.bodyParameters (ofJson contentType schema description required),
      parameter.IsFrom root := by
  have whole (name description : String) (required : Bool) :
      ∀ parameter ∈ [Parameter.ofBody name schema description required], parameter.IsFrom root :=
    List.forall_mem_singleton.mpr (Parameter.isFrom_of_schema stands rfl)
  unfold ofJson
  dsimp only
  split
  · exact Parameter.isFrom_ofProperties stands required
  · split
    · exact whole _ _ _
    · split <;> exact whole _ _ _

theorem Body.isFrom_ofContent {content : Members} (stands : StandsIn root (.object content))
    (description : String) (required : Bool) :
    ∀ parameter ∈ Client.bodyParameters (ofContent content description required),
      parameter.IsFrom root := by
  rcases ofContent_cases content description required with none | ⟨written, media, inside, made⟩
  · rw [none]
    exact fun _ member => absurd member List.not_mem_nil
  have schema : StandsIn root (mediaSchema media) := by
    unfold mediaSchema
    cases found : media.get? "schema" with
    | none => exact .inr rfl
    | some schema => exact (stands.member inside).get? found
  have fields := Parameter.isFrom_ofProperties schema required
  rcases made with multipart | form | json | other
  · rw [multipart]
    exact List.forall_mem_append.mpr ⟨fun field member => fields field (List.mem_filter.mp member).1,
      fun file member => fields file (List.mem_filter.mp member).1⟩
  · rw [form]
    exact fields
  · rw [json]
    exact isFrom_ofJson schema _ _ _
  · rw [other]
    exact List.forall_mem_singleton.mpr (Parameter.isFrom_of_schema schema rfl)

theorem Body.isFrom_ofOperation {raw : Members} (stands : StandsIn root (.object raw)) :
    ∀ parameter ∈ Client.bodyParameters (ofOperation raw), parameter.IsFrom root := by
  unfold ofOperation
  split
  · exact fun _ member => absurd member List.not_mem_nil
  · next body found =>
    split
    · next content inside =>
      exact isFrom_ofContent ((stands.member (Members.mem_of_get? found)).get? inside) _ _
    · exact fun _ member => absurd member List.not_mem_nil

/-! ### Operations -/

/-- What an operation says, and each parameter that it takes, stands in the document. -/
theorem standsIn_of_mem_ofDocument {document : OpenApi.Document} {operation : Operation}
    (inside : operation ∈ ofDocument document) :
    StandsIn document.root (.object operation.raw) ∧
      ∀ declaration ∈ operation.parameters, StandsIn document.root declaration := by
  obtain ⟨⟨path, item⟩, listed, found⟩ := List.mem_flatMap.mp inside
  have stands : StandsIn document.root (.object item) := by
    obtain ⟨⟨_, value⟩, there, object⟩ := List.mem_filterMap.mp listed
    obtain ⟨members, whole, same⟩ := Option.map_eq_some_iff.mp object
    obtain ⟨rfl, rfl⟩ := Prod.mk.inj same
    cases value with
    | object others =>
      obtain rfl := Option.some.inj whole
      cases given : document.root.get? "paths" with
      | none =>
        rw [given] at there
        exact absurd there List.not_mem_nil
      | some paths =>
        rw [given] at there
        have outer : StandsIn document.root document.root := .inl ⟨0, .here _⟩
        exact (outer.get? given).asObject?.member there
    | _ => cases whole
  obtain ⟨⟨key, value⟩, member, made⟩ := List.mem_filterMap.mp found
  dsimp only at made
  split at made
  · next verb raw _ =>
    obtain rfl := Option.some.inj made
    have own := stands.member member
    exact ⟨own, fun declaration declared =>
      (Keyed.mem_of_mem_putAll declared).elim (stands.itemsAt _) (own.itemsAt _)⟩
  · cases made

/-- The schemas and the examples of what an operation takes stand wherever the operation and the
parameters that it takes do. -/
theorem isFrom_of_extract {operation : Operation} {extracted : ExtractedOperation}
    (done : operation.extract = .ok extracted) (raw : StandsIn root (.object operation.raw))
    (declared : ∀ declaration ∈ operation.parameters, StandsIn root declaration) :
    ∀ parameter ∈ extracted.pathParameters ++ extracted.queryParameters ++
        Client.bodyParameters extracted.body, parameter.IsFrom root := by
  unfold extract at done
  split at done
  · cases done
  · obtain ⟨⟨inPath, inQuery⟩, sorted, done⟩ := bind_eq_ok.mp done
    obtain rfl := Except.ok.inj done
    exact List.forall_mem_append.mpr
      ⟨isFrom_of_sortParameters declared sorted, Body.isFrom_ofOperation raw⟩

/-- The schemas and the examples of a method stand wherever those of its operation do. -/
theorem isFrom_of_isCoherent {operation : ExtractedOperation} {resolved : List ApiSurface.Parameter}
    {method : Method} (coherent : Client.IsCoherent operation resolved method)
    (isFrom : ∀ parameter ∈ operation.pathParameters ++ operation.queryParameters ++
        Client.bodyParameters operation.body, parameter.IsFrom root)
    {parameter : ApiSurface.Parameter} (inside : parameter ∈ method.parameters) :
    StandsIn root parameter.schema ∧ ∀ example_ ∈ parameter.example?, StandsIn root example_ := by
  obtain ⟨⟨location, declaration⟩, known, same⟩ :=
    Client.exists_of_forall₂_mem coherent.declared (coherent.permutation.mem_iff.mp inside)
  have places : (Client.declaredParameters operation).map Prod.snd = operation.pathParameters ++
      operation.queryParameters ++ Client.bodyParameters operation.body := by
    simp [Client.declaredParameters, Function.comp_def]
  rw [same]
  exact isFrom declaration (places ▸ List.mem_map_of_mem known)

end Operation

end ApiSurface
