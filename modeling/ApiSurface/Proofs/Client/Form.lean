/-
This file proves that a client reads back from its JSON form. Each record holds all of its members under
their names, so each is found once; the only thing that is lost is an example that is null, because null
also stands for an example that is missing. The form is a few levels deeper than the schemas and the
examples in it.
-/

import ApiSurface.Client.Reader
import ApiSurface.Proofs.Json.Reader

namespace ApiSurface

open Json

/-! ### Parts of records -/

/-- A list reads back item by item. -/
theorem Json.listOf?_map {Item Kept : Type} {write : Item → Json} {read : Json → Option Kept}
    (kept : Item → Kept) {items : List Item}
    (reads : ∀ item ∈ items, read (write item) = some (kept item)) :
    listOf? read (.array (items.map write)) = some (items.map kept) := by
  show (items.map write).mapM read = _
  induction items with
  | nil => rfl
  | cons first rest inductionHypothesis =>
    rw [List.map_cons, List.mapM_cons, reads first List.mem_cons_self,
      inductionHypothesis fun item member => reads item (List.mem_cons_of_mem _ member)]
    rfl

theorem Json.listOf?_map_id {Item : Type} (write : Item → Json) {read : Json → Option Item}
    (reads : ∀ item, read (write item) = some item) (items : List Item) :
    listOf? read (.array (items.map write)) = some items := by
  rw [listOf?_map id fun item _ => reads item, List.map_id]

theorem Json.listOf?_ofTexts (texts : List String) : listOf? asText? (ofTexts texts) = some texts :=
  listOf?_map_id .text (fun _ => rfl) texts

theorem Verb.ofJson?_lower (verb : Verb) : Verb.ofJson? (.text verb.lower) = some verb := by
  cases verb <;> rfl

theorem Location.ofJson?_name (location : Location) :
    Location.ofJson? (.text location.name) = some location := by
  cases location <;> rfl

theorem ReturnKind.ofJson?_name (kind : ReturnKind) :
    ReturnKind.ofJson? (.text kind.name) = some kind := by
  cases kind <;> rfl

/-! ### Plans -/

theorem Binding.listOf?_listToJson (bindings : List Binding) :
    listOf? ofJson? (listToJson bindings) = some bindings :=
  listOf?_map_id Binding.toJson (fun _ => rfl) bindings

theorem BodyShape.ofJson?_toJson (shape : BodyShape) : ofJson? shape.toJson = some shape := by
  cases shape with
  | multipart fields files =>
    show (do
      return BodyShape.multipart (← listOf? Binding.ofJson? (Binding.listToJson fields))
        (← listOf? Binding.ofJson? (Binding.listToJson files))) = _
    rw [Binding.listOf?_listToJson, Binding.listOf?_listToJson]
    rfl
  | form fields =>
    show (do return BodyShape.form (← listOf? Binding.ofJson? (Binding.listToJson fields))) = _
    rw [Binding.listOf?_listToJson]
    rfl
  | jsonObject contentType fields =>
    show (do
      return BodyShape.jsonObject contentType
        (← listOf? Binding.ofJson? (Binding.listToJson fields))) = _
    rw [Binding.listOf?_listToJson]
    rfl
  | _ => rfl

theorem RequestPlan.ofJson?_toJson (plan : RequestPlan) : ofJson? plan.toJson = some plan := by
  show (do
    return {
      verb := ← Verb.ofJson? (.text plan.verb.lower)
      path := plan.path
      required := ← listOf? asText? (ofTexts plan.required)
      pathBindings := ← listOf? Binding.ofJson? (Binding.listToJson plan.pathBindings)
      queryBindings := ← listOf? Binding.ofJson? (Binding.listToJson plan.queryBindings)
      body := ← BodyShape.ofJson? plan.body.toJson : RequestPlan }) = _
  rw [Verb.ofJson?_lower, listOf?_ofTexts, Binding.listOf?_listToJson, Binding.listOf?_listToJson,
    BodyShape.ofJson?_toJson]
  rfl

/-! ### Documentation -/

theorem DocBlock.Argument.ofJson?_toJson (argument : Argument) :
    ofJson? argument.toJson = some argument := by
  obtain ⟨name, description, typeHint⟩ := argument
  cases typeHint <;> rfl

theorem DocBlock.ofJson?_toJson (block : DocBlock) : ofJson? block.toJson = some block := by
  show (do
    return {
      summary := block.summary
      arguments := ← listOf? Argument.ofJson? (.array (block.arguments.map Argument.toJson))
      returns := block.returns
      failures := ← listOf? Failure.ofJson? (.array (block.failures.map Failure.toJson))
      tags := ← listOf? asText? (ofTexts block.tags) : DocBlock }) = _
  rw [listOf?_map_id Argument.toJson Argument.ofJson?_toJson,
    listOf?_map_id Failure.toJson
      fun failure => show Failure.ofJson? failure.toJson = some failure from rfl,
    listOf?_ofTexts]
  rfl

/-! ### Parameters -/

/-- The parameter without an example that is null. -/
def Parameter.withoutNullExample (parameter : Parameter) : Parameter :=
  { parameter with example? := parameter.example?.filter fun example_ => !example_.isNull }

/-- The values of a parameter that can be anything have no repeated keys. -/
def Parameter.HasDistinctKeys (parameter : Parameter) : Prop :=
  parameter.schema.HasDistinctKeys ∧ ∀ example_ ∈ parameter.example?, example_.HasDistinctKeys

theorem Parameter.exampleOf_eq {example? : Option Json}
    (distinct : ∀ example_ ∈ example?, example_.HasDistinctKeys) :
    exampleOf (some (example?.getD .null)) = example?.filter fun example_ => !example_.isNull := by
  cases example? with
  | none => rfl
  | some given =>
    have kept := withoutRepeats_eq given (distinct given rfl)
    cases given with
    | null => rfl
    | _ => exact congrArg some kept

theorem Parameter.ofJson?_toJson {parameter : Parameter} (distinct : parameter.HasDistinctKeys) :
    ofJson? parameter.toJson = some parameter.withoutNullExample := by
  show (do
    return {
      external := parameter.external
      internal := parameter.internal
      location := ← Location.ofJson? (.text parameter.location.name)
      type := parameter.type
      schema := withoutRepeats parameter.schema
      hint := parameter.hint
      description := parameter.description
      required := parameter.required
      example? := exampleOf (some (parameter.example?.getD .null))
      isFile := parameter.isFile : Parameter }) = _
  rw [Location.ofJson?_name, withoutRepeats_eq _ distinct.1, exampleOf_eq distinct.2]
  rfl

/-! ### Clients -/

/-- The method without examples that are null. -/
def Method.withoutNullExamples (method : Method) : Method :=
  { method with parameters := method.parameters.map Parameter.withoutNullExample }

/-- The client without examples that are null. -/
def Client.withoutNullExamples (client : Client) : Client :=
  { client with methods := client.methods.map Method.withoutNullExamples }

theorem PathMarker.optional?_toJson (marker : Option PathMarker) :
    optional? (some ((marker.map toJson).getD .null)) = some marker := by
  cases marker with
  | none => rfl
  | some marker =>
    show (ofJson? marker.toJson).map some = _
    rw [show ofJson? marker.toJson = do return ⟨← Verb.ofJson? (.text marker.verb.lower), marker.path⟩
      from rfl, Verb.ofJson?_lower]
    rfl

theorem Method.ofJson?_toJson {method : Method}
    (distinct : ∀ parameter ∈ method.parameters, parameter.HasDistinctKeys) :
    ofJson? method.toJson = some method.withoutNullExamples := by
  show (do
    return {
      name := method.name
      parameters := ← listOf? Parameter.ofJson? (.array (method.parameters.map Parameter.toJson))
      doc := ← DocBlock.ofJson? method.doc.toJson
      marker := ← PathMarker.optional? (some ((method.marker.map PathMarker.toJson).getD .null))
      plan := ← RequestPlan.ofJson? method.plan.toJson
      returnKind := ← ReturnKind.ofJson? (.text method.returnKind.name)
      signature := method.signature
      returnType := method.returnType
      body := ← listOf? asText? (ofTexts method.body) : Method }) = _
  rw [listOf?_map _ fun parameter member => Parameter.ofJson?_toJson (distinct parameter member),
    DocBlock.ofJson?_toJson, PathMarker.optional?_toJson, RequestPlan.ofJson?_toJson,
    ReturnKind.ofJson?_name, listOf?_ofTexts]
  rfl

/-- A client reads back from its form, apart from examples that are null. -/
theorem Client.ofJson?_toJson {client : Client}
    (distinct : ∀ method ∈ client.methods, ∀ parameter ∈ method.parameters,
      parameter.HasDistinctKeys) :
    ofJson? client.toJson = some client.withoutNullExamples := by
  show (do
    return {
      className := client.className
      title := client.title
      baseUrl := client.baseUrl
      methods := ← listOf? Method.ofJson? (.array (client.methods.map Method.toJson)) : Client }) = _
  rw [listOf?_map _ fun method member => Method.ofJson?_toJson (distinct method member)]
  rfl

/-! ### Lost examples -/

theorem Parameter.toJson_withoutNullExample (parameter : Parameter) :
    parameter.withoutNullExample.toJson = parameter.toJson := by
  have sample : parameter.withoutNullExample.example?.getD .null = parameter.example?.getD .null := by
    show (parameter.example?.filter fun example_ => !example_.isNull).getD .null = _
    cases parameter.example? with
    | none => rfl
    | some example_ => cases example_ <;> rfl
  rw [toJson, sample]
  rfl

theorem Method.toJson_withoutNullExamples (method : Method) :
    method.withoutNullExamples.toJson = method.toJson := by
  have parameters : method.withoutNullExamples.parameters.map Parameter.toJson =
      method.parameters.map Parameter.toJson := by
    show (method.parameters.map Parameter.withoutNullExample).map _ = _
    rw [List.map_map]
    exact List.map_congr_left fun parameter _ => parameter.toJson_withoutNullExample
  rw [toJson, parameters]
  rfl

theorem Client.toJson_withoutNullExamples (client : Client) :
    client.withoutNullExamples.toJson = client.toJson := by
  have methods : client.withoutNullExamples.methods.map Method.toJson =
      client.methods.map Method.toJson := by
    show (client.methods.map Method.withoutNullExamples).map _ = _
    rw [List.map_map]
    exact List.map_congr_left fun method _ => method.toJson_withoutNullExamples
  rw [toJson, methods]
  rfl

/-! ### Depth of forms -/

section

variable {limit opened : Nat}

theorem Json.fitsUnder_map {Item : Type} {write : Item → Json} {written : List Item}
    (room : opened < limit) (each : ∀ item ∈ written, FitsUnder limit (opened + 1) (write item)) :
    FitsUnder limit opened (.array (written.map write)) :=
  fitsUnder_array_iff.mpr ⟨room, List.forall_mem_map.mpr each⟩

theorem Json.fitsUnder_ofTexts {texts : List String} (room : opened + 1 < limit) :
    FitsUnder limit opened (ofTexts texts) :=
  fitsUnder_map (Nat.lt_of_succ_lt room) fun _ _ => fitsUnder_text_iff.mpr room

theorem Binding.fitsUnder_listToJson {bindings : List Binding} (room : opened + 2 < limit) :
    FitsUnder limit opened (listToJson bindings) := by
  have enough : opened < limit ∧ opened + 1 < limit := by omega
  refine fitsUnder_map enough.1 fun binding _ => ?_
  simp [toJson, fitsUnder_object_iff, fitsUnder_text_iff, enough, room]

theorem BodyShape.fitsUnder_toJson (shape : BodyShape) (room : opened + 3 < limit) :
    FitsUnder limit opened shape.toJson := by
  have bindings (given : List Binding) : FitsUnder limit (opened + 1) (Binding.listToJson given) :=
    Binding.fitsUnder_listToJson room
  have enough : opened < limit ∧ opened + 1 < limit := by omega
  cases shape <;>
    simp [toJson, toJson.single, fitsUnder_object_iff, fitsUnder_text_iff, bindings, enough]

theorem RequestPlan.fitsUnder_toJson (plan : RequestPlan) (room : opened + 4 < limit) :
    FitsUnder limit opened plan.toJson := by
  have bindings (given : List Binding) : FitsUnder limit (opened + 1) (Binding.listToJson given) :=
    Binding.fitsUnder_listToJson (by omega)
  have texts : FitsUnder limit (opened + 1) (ofTexts plan.required) := fitsUnder_ofTexts (by omega)
  have body : FitsUnder limit (opened + 1) plan.body.toJson := plan.body.fitsUnder_toJson (by omega)
  have enough : opened < limit ∧ opened + 1 < limit := by omega
  simp [toJson, fitsUnder_object_iff, fitsUnder_text_iff, bindings, texts, body, enough]

theorem DocBlock.fitsUnder_toJson (block : DocBlock) (room : opened + 3 < limit) :
    FitsUnder limit opened block.toJson := by
  have enough : opened < limit ∧ opened + 1 < limit ∧ opened + 2 < limit := by omega
  have texts : FitsUnder limit (opened + 1) (ofTexts block.tags) := fitsUnder_ofTexts enough.2.2
  have arguments : FitsUnder limit (opened + 1) (.array (block.arguments.map Argument.toJson)) := by
    refine fitsUnder_map enough.2.1 fun argument _ => ?_
    cases hint : argument.typeHint <;>
      simp [Argument.toJson, hint, ofText?, fitsUnder_object_iff, fitsUnder_text_iff,
        fitsUnder_null_iff, enough, room]
  have failures : FitsUnder limit (opened + 1) (.array (block.failures.map Failure.toJson)) := by
    refine fitsUnder_map enough.2.1 fun failure _ => ?_
    simp [Failure.toJson, fitsUnder_object_iff, fitsUnder_text_iff, enough, room]
  simp [toJson, fitsUnder_object_iff, fitsUnder_text_iff, texts, arguments, failures, enough]

end

section

variable {depth limit opened : Nat}

theorem Json.fitsUnder_of_bounded {value : Json}
    (bounded : ∀ below inner, SitsBelow value below inner → below ≤ depth)
    (room : opened + depth < limit) : FitsUnder limit opened value := by
  intro below inner inside
  have near := bounded below inner inside
  omega

/-- Nothing in the schema or the example of a parameter sits deeper than a number of levels. -/
def Parameter.IsBounded (depth : Nat) (parameter : Parameter) : Prop :=
  (∀ below inner, SitsBelow parameter.schema below inner → below ≤ depth) ∧
    ∀ example_ ∈ parameter.example?, ∀ below inner, SitsBelow example_ below inner → below ≤ depth

theorem Parameter.fitsUnder_toJson {parameter : Parameter} (bounded : parameter.IsBounded depth)
    (room : opened + depth + 1 < limit) : FitsUnder limit opened parameter.toJson := by
  have enough : opened < limit ∧ opened + 1 < limit := by omega
  have schema : FitsUnder limit (opened + 1) parameter.schema :=
    fitsUnder_of_bounded bounded.1 (by omega)
  have sample : FitsUnder limit (opened + 1) (parameter.example?.getD .null) := by
    cases given : parameter.example? with
    | none => exact fitsUnder_null_iff.mpr enough.2
    | some example_ => exact fitsUnder_of_bounded (bounded.2 example_ given) (by omega)
  simp [toJson, fitsUnder_object_iff, fitsUnder_text_iff, fitsUnder_bool_iff, schema, sample, enough]

theorem Method.fitsUnder_toJson {method : Method}
    (bounded : ∀ parameter ∈ method.parameters, parameter.IsBounded depth)
    (room : opened + depth + 5 < limit) : FitsUnder limit opened method.toJson := by
  have enough : opened < limit ∧ opened + 1 < limit ∧ opened + 2 < limit := by omega
  have parameters : FitsUnder limit (opened + 1)
      (.array (method.parameters.map Parameter.toJson)) :=
    fitsUnder_map enough.2.1 fun parameter member =>
      Parameter.fitsUnder_toJson (bounded parameter member) (by omega)
  have doc : FitsUnder limit (opened + 1) method.doc.toJson := method.doc.fitsUnder_toJson (by omega)
  have plan : FitsUnder limit (opened + 1) method.plan.toJson := method.plan.fitsUnder_toJson (by omega)
  have body : FitsUnder limit (opened + 1) (ofTexts method.body) := fitsUnder_ofTexts enough.2.2
  have marker : FitsUnder limit (opened + 1) ((method.marker.map PathMarker.toJson).getD .null) := by
    cases method.marker <;>
      simp [PathMarker.toJson, fitsUnder_object_iff, fitsUnder_text_iff, fitsUnder_null_iff, enough]
  simp [toJson, fitsUnder_object_iff, fitsUnder_text_iff, parameters, doc, plan, body, marker, enough]

theorem Client.fitsUnder_toJson {client : Client}
    (bounded : ∀ method ∈ client.methods, ∀ parameter ∈ method.parameters,
      parameter.IsBounded depth)
    (room : opened + depth + 7 < limit) : FitsUnder limit opened client.toJson := by
  have enough : opened < limit ∧ opened + 1 < limit := by omega
  have methods : FitsUnder limit (opened + 1) (.array (client.methods.map Method.toJson)) :=
    fitsUnder_map enough.2 fun method member =>
      Method.fitsUnder_toJson (bounded method member) (by omega)
  simp [toJson, fitsUnder_object_iff, fitsUnder_text_iff, methods, enough]

end

end ApiSurface
