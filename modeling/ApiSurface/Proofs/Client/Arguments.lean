/-
This file proves where the arguments of a method end up. Each declaration gave the method one
parameter, so each argument that is given is sent once: in the path, in the query or in the body, under
the name that the document declares. Those in the path must be given, so nothing else can be missing
once all needed arguments are there.
-/

import ApiSurface.Proofs.Client.Coherence
import ApiSurface.Proofs.Http.Request
import ApiSurface.Proofs.Operation.Body
import ApiSurface.Proofs.Operation.Extraction

namespace ApiSurface.Client

open Json (Members)

/-! ### What is sent -/

/-- The arguments of parameters under the names under which they are sent, without those that are not
given. -/
def givenMembers (arguments : Members) (parameters : List Parameter) : Members :=
  parameters.filterMap fun parameter =>
    (present? arguments parameter.internal).map fun value => (parameter.external, value)

/-- What the body of a request holds. Where a body is given by name, it has a member for each argument
that is given, and in a multipart form the files are apart from the plain fields. A body that is one
argument is this argument, or nothing. -/
inductive Carries (arguments : Members) : Operation.Body → List Parameter → Payload → Prop
  | none : Carries arguments .none [] .none
  | multipart {fields files : List Operation.Parameter} (parameters : List Parameter) :
    Carries arguments (.multipart fields files) parameters
      (.multipart
        (givenMembers arguments (parameters.filter fun parameter => !parameter.isFile))
        (givenMembers arguments (parameters.filter fun parameter => parameter.isFile)))
  | form {fields : List Operation.Parameter} (parameters : List Parameter) :
    Carries arguments (.form fields) parameters (.form (givenMembers arguments parameters))
  | jsonObject {contentType : String} {fields : List Operation.Parameter}
    (parameters : List Parameter) :
    Carries arguments (.jsonObject contentType fields) parameters
      (.json (.object (givenMembers arguments parameters)))
  | jsonArray {contentType : String} {raw : Operation.Parameter} (parameter : Parameter) :
    Carries arguments (.jsonArray contentType raw) [parameter]
      ((present? arguments parameter.internal).elim .none .json)
  | jsonAny {contentType : String} {raw : Operation.Parameter} (parameter : Parameter) :
    Carries arguments (.jsonAny contentType raw) [parameter]
      ((present? arguments parameter.internal).elim .none .json)
  | raw {contentType : String} {raw : Operation.Parameter} (parameter : Parameter) :
    Carries arguments (.raw contentType raw) [parameter]
      ((present? arguments parameter.internal).elim .none .raw)

/-- What a method makes of arguments. `resolved` are its parameters in the order of their
declaration. -/
structure Sends (operation : ExtractedOperation) (resolved : List Parameter) (method : Method)
    (arguments : Members) : Prop where
  /-- A request is made if and only if all arguments that must be given are. -/
  made : (∃ request, method.plan.request arguments = .ok request) ↔
    ∀ parameter ∈ method.parameters, parameter.required = true →
      ∃ value, IsGiven arguments parameter.internal value
  /-- Otherwise the first one that is missing is named. -/
  missing {fault : RequestFault} (failed : method.plan.request arguments = .error fault) :
    ∃ name before after, fault = .missingParameter name ∧
      method.plan.required = before ++ name :: after ∧
      (¬ ∃ value, IsGiven arguments name value) ∧
      ∀ earlier ∈ before, ∃ value, IsGiven arguments earlier value
  /-- The query holds those of its arguments that are given. -/
  query {request : HttpRequest} (made : method.plan.request arguments = .ok request) :
    request.query = givenMembers arguments
      (resolved.filter fun parameter => parameter.location = .query)
  /-- The body holds those of its arguments that are given. -/
  body {request : HttpRequest} (made : method.plan.request arguments = .ok request) :
    Carries arguments operation.body (resolved.filter fun parameter => parameter.location = .body)
      request.payload
  /-- No two arguments in the body are sent under one name. -/
  distinct : ((resolved.filter fun parameter => parameter.location = .body).map
    Parameter.external).Nodup
  /-- Nothing else about the arguments matters. -/
  unaffected {other : Members}
    (same : ∀ parameter ∈ method.parameters, ∀ value,
      IsGiven other parameter.internal value ↔ IsGiven arguments parameter.internal value) :
    method.plan.request other = method.plan.request arguments

section

variable {arguments : Members} {parameters : List Parameter}

theorem presentBindings_map_bindingOf :
    presentBindings arguments (parameters.map bindingOf) = givenMembers arguments parameters :=
  List.filterMap_map

theorem sublist_keys_givenMembers :
    ((givenMembers arguments parameters).map Prod.fst).Sublist (parameters.map Parameter.external) := by
  induction parameters with
  | nil => exact List.Sublist.refl []
  | cons first rest inductionHypothesis =>
    rw [givenMembers, List.filterMap_cons, ← givenMembers, List.map_cons]
    cases present? arguments first.internal with
    | none => exact inductionHypothesis.cons _
    | some value => exact inductionHypothesis.cons_cons _

/-- Fields with different names are sent as they are listed. -/
theorem fieldsOf_map_bindingOf (distinct : (parameters.map Parameter.external).Nodup) :
    fieldsOf arguments (parameters.map bindingOf) = givenMembers arguments parameters := by
  rw [fieldsOf, presentBindings_map_bindingOf]
  exact Members.ofList_of_nodup (sublist_keys_givenMembers.nodup distinct)

/-- If all declarations are files or none is, so are the parameters. -/
theorem isFile_of_forall₂ {raws : List Operation.Parameter}
    (each : List.Forall₂ (IsNamed .body) raws parameters) {isFile : Bool}
    (declared : ∀ raw ∈ raws, raw.isFile = isFile) :
    ∀ parameter ∈ parameters, parameter.isFile = isFile := by
  intro parameter member
  obtain ⟨raw, inside, stands⟩ := exists_of_forall₂_mem each member
  rw [stands.1]
  exact declared raw inside

/-- Parameters are sent under the names that their declarations give. -/
theorem map_external {location : Location} {raws : List Operation.Parameter}
    (each : List.Forall₂ (IsNamed location) raws parameters) :
    parameters.map Parameter.external = raws.map Operation.Parameter.name := by
  induction each with
  | nil => rfl
  | cons stands _ inductionHypothesis =>
    rw [List.map_cons, List.map_cons, inductionHypothesis, stands.1]
    rfl

theorem filter_isFile {first second : List Parameter}
    (plain : ∀ parameter ∈ first, parameter.isFile = false)
    (attached : ∀ parameter ∈ second, parameter.isFile = true) :
    (first ++ second).filter (fun parameter => !parameter.isFile) = first ∧
      (first ++ second).filter (fun parameter => parameter.isFile) = second := by
  have firstKept : first.filter (fun parameter => !parameter.isFile) = first :=
    List.filter_eq_self.mpr fun parameter member => by rw [plain parameter member]; rfl
  have secondKept : second.filter (fun parameter => parameter.isFile) = second :=
    List.filter_eq_self.mpr attached
  have firstLeft : first.filter (fun parameter => parameter.isFile) = [] :=
    List.filter_eq_nil_iff.mpr fun parameter member => by simp [plain parameter member]
  have secondLeft : second.filter (fun parameter => !parameter.isFile) = [] :=
    List.filter_eq_nil_iff.mpr fun parameter member => by simp [attached parameter member]
  rw [List.filter_append, List.filter_append, firstKept, secondLeft, firstLeft, secondKept,
    List.append_nil, List.nil_append]
  exact ⟨rfl, rfl⟩

/-- The body that a plan makes of arguments holds those of its parameters. -/
theorem carries_payload {body : Operation.Body}
    (named : List.Forall₂ (IsNamed .body) (bodyParameters body) parameters)
    (distinct : (parameters.map Parameter.external).Nodup)
    (parted : ∀ fields files, body = .multipart fields files →
      (∀ field ∈ fields, field.isFile = false) ∧ ∀ file ∈ files, file.isFile = true) :
    Carries arguments body parameters (RequestPlan.payload arguments (shapeOf body parameters)) := by
  cases body with
  | none =>
    rw [List.forall₂_nil_left_iff.mp named]
    exact .none
  | multipart fields files =>
    obtain ⟨noFile, allFiles⟩ := parted fields files rfl
    have plainNamed := List.forall₂_take fields.length named
    have filesNamed := List.forall₂_drop fields.length named
    rw [bodyParameters, List.take_left] at plainNamed
    rw [bodyParameters, List.drop_left] at filesNamed
    have plain := isFile_of_forall₂ plainNamed noFile
    have attached := isFile_of_forall₂ filesNamed allFiles
    -- The plan counts the plain fields; that these are the ones that are no files was declared.
    have whole := List.take_append_drop fields.length parameters
    rw [shapeOf, RequestPlan.payload]
    generalize parameters.take fields.length = first at plain whole ⊢
    generalize parameters.drop fields.length = second at attached whole ⊢
    subst whole
    rw [List.map_append, List.nodup_append] at distinct
    rw [fieldsOf_map_bindingOf distinct.1, fieldsOf_map_bindingOf distinct.2.1]
    obtain ⟨fieldsFirst, filesSecond⟩ := filter_isFile plain attached
    have shown : Carries arguments (.multipart fields files) (first ++ second) _ :=
      .multipart (first ++ second)
    rw [fieldsFirst, filesSecond] at shown
    exact shown
  | form fields =>
    rw [shapeOf, RequestPlan.payload, fieldsOf_map_bindingOf distinct]
    exact .form parameters
  | jsonObject contentType fields =>
    rw [shapeOf, RequestPlan.payload, fieldsOf_map_bindingOf distinct]
    exact .jsonObject parameters
  | jsonArray contentType raw =>
    obtain ⟨parameter, rest, -, none, rfl⟩ := List.forall₂_cons_left_iff.mp named
    rw [List.forall₂_nil_left_iff.mp none]
    exact .jsonArray parameter
  | jsonAny contentType raw =>
    obtain ⟨parameter, rest, -, none, rfl⟩ := List.forall₂_cons_left_iff.mp named
    rw [List.forall₂_nil_left_iff.mp none]
    exact .jsonAny parameter
  | raw contentType raw =>
    obtain ⟨parameter, rest, -, none, rfl⟩ := List.forall₂_cons_left_iff.mp named
    rw [List.forall₂_nil_left_iff.mp none]
    exact .raw parameter

end

/-! ### Requests -/

section

variable {operation : ExtractedOperation} {resolved : List Parameter} {method : Method}
  {arguments : Members}

theorem IsCoherent.mem_required_iff (coherent : IsCoherent operation resolved method) {name : String} :
    name ∈ method.plan.required ↔
      ∃ parameter ∈ method.parameters, parameter.required = true ∧ parameter.internal = name := by
  rw [coherent.required, List.mem_map]
  refine exists_congr fun parameter => ?_
  rw [List.mem_filter, and_assoc]

/-- A method asks for what its parameters need. -/
theorem IsCoherent.given_iff (coherent : IsCoherent operation resolved method) :
    (∀ name ∈ method.plan.required, (present? arguments name).isSome = true) ↔
      ∀ parameter ∈ method.parameters, parameter.required = true →
        ∃ value, IsGiven arguments parameter.internal value := by
  constructor
  · intro given parameter member required
    exact isSome_present?_iff.mp
      (given _ (coherent.mem_required_iff.mpr ⟨parameter, member, required, rfl⟩))
  · intro given name member
    obtain ⟨parameter, inside, required, rfl⟩ := coherent.mem_required_iff.mp member
    exact isSome_present?_iff.mpr (given parameter inside required)

/-- Only arguments under the names of the signature matter. -/
theorem IsCoherent.request_congr (coherent : IsCoherent operation resolved method) {other : Members}
    (same : ∀ parameter ∈ method.parameters, ∀ value,
      IsGiven other parameter.internal value ↔ IsGiven arguments parameter.internal value) :
    method.plan.request other = method.plan.request arguments := by
  refine RequestPlan.request_congr fun name member => ?_
  have known : ∃ parameter ∈ method.parameters, parameter.internal = name := by
    rcases List.mem_append.mp member with needed | bound
    · obtain ⟨parameter, inside, -, found⟩ := coherent.mem_required_iff.mp needed
      exact ⟨parameter, inside, found⟩
    · rw [coherent.bound] at bound
      obtain ⟨parameter, inside, found⟩ := List.mem_map.mp bound
      exact ⟨parameter, coherent.permutation.mem_iff.mpr inside, found⟩
  obtain ⟨parameter, inside, rfl⟩ := known
  exact present?_congr (same parameter inside)

end

section

variable {operation : ExtractedOperation} {inPath inQuery inBody : List Parameter}

/-- The arguments of all placeholders must be given. -/
theorem IsCoherent.internal_mem_required {method : Method}
    (pathNamed : List.Forall₂ (IsNamed .path) operation.pathParameters inPath)
    (coherent : IsCoherent operation (inPath ++ inQuery ++ inBody) method)
    (pathRequired : ∀ raw ∈ operation.pathParameters, raw.required = true)
    {parameter : Parameter} (member : parameter ∈ inPath) :
    parameter.internal ∈ method.plan.required := by
  obtain ⟨raw, declared, stands⟩ := exists_of_forall₂_mem pathNamed member
  have required : parameter.required = true := by
    rw [stands.1]
    exact pathRequired raw declared
  have inside : parameter ∈ method.parameters :=
    coherent.permutation.mem_iff.mpr (List.mem_append_left _ (List.mem_append_left _ member))
  exact coherent.mem_required_iff.mpr ⟨parameter, inside, required, rfl⟩

/-- What the method of an operation makes of arguments, whatever they are. -/
theorem sends_assembled
    (pathNamed : List.Forall₂ (IsNamed .path) operation.pathParameters inPath)
    (queryNamed : List.Forall₂ (IsNamed .query) operation.queryParameters inQuery)
    (bodyNamed : List.Forall₂ (IsNamed .body) (bodyParameters operation.body) inBody)
    (coherent : IsCoherent operation (inPath ++ inQuery ++ inBody)
      (assembled operation inPath inQuery inBody))
    (pathRequired : ∀ raw ∈ operation.pathParameters, raw.required = true)
    (names : ((bodyParameters operation.body).map Operation.Parameter.name).Nodup)
    (parted : ∀ fields files, operation.body = .multipart fields files →
      (∀ field ∈ fields, field.isFile = false) ∧ ∀ file ∈ files, file.isFile = true)
    (arguments : Members) :
    Sends operation (inPath ++ inQuery ++ inBody) (assembled operation inPath inQuery inBody)
      arguments := by
  have needed : ∀ binding ∈ inPath.map bindingOf,
      binding.internal ∈ (assembled operation inPath inQuery inBody).plan.required := by
    intro binding member
    obtain ⟨parameter, inside, rfl⟩ := List.mem_map.mp member
    exact coherent.internal_mem_required pathNamed pathRequired inside
  have inPlace : (inPath ++ inQuery ++ inBody).filter (fun parameter => parameter.location = .body) =
      inBody := by
    rw [filter_location_append pathNamed queryNamed bodyNamed, if_neg (by decide), if_neg (by decide),
      if_pos rfl, List.nil_append, List.nil_append]
  have distinct : (inBody.map Parameter.external).Nodup := by
    rw [map_external bodyNamed]
    exact names
  refine {
    made := (RequestPlan.exists_request_iff needed).trans coherent.given_iff
    missing := fun failed => ?_
    query := fun made => ?_
    body := fun made => ?_
    distinct := ?_
    unaffected := coherent.request_congr }
  · obtain ⟨name, missing, rfl⟩ := RequestPlan.request_eq_error needed failed
    obtain ⟨absent, before, after, whole, earlier⟩ := RequestPlan.missing?_eq_some_iff.mp missing
    exact ⟨name, before, after, rfl, whole, present?_eq_none_iff.mp absent,
      fun other member => isSome_present?_iff.mp (earlier other member)⟩
  · obtain ⟨-, path, -, rfl⟩ := RequestPlan.request_eq_ok_iff.mp made
    rw [coherent.query]
    exact presentBindings_map_bindingOf
  · obtain ⟨-, path, -, rfl⟩ := RequestPlan.request_eq_ok_iff.mp made
    rw [inPlace]
    exact carries_payload bodyNamed distinct parted
  · rw [inPlace]
    exact distinct

end

/-- Every method that is made for an operation sends each of its arguments to one place, under the
name that the document declares, and does so if all arguments that must be given are. What the document
says about the operation is made up of objects, which have no key twice. -/
theorem exists_isCoherent_sends {operation : Operation} {extracted : ExtractedOperation}
    {method : Method} (done : operation.extract = .ok extracted)
    (built : buildMethod extracted = .ok method)
    (distinct : (Json.object operation.raw).HasDistinctKeys) :
    ∃ resolved, IsCoherent extracted resolved method ∧
      ∀ arguments, Sends extracted resolved method arguments := by
  obtain ⟨-, -, body, pathRequired⟩ := Operation.extract_eq_ok done
  obtain ⟨inPath, inQuery, inBody, pathNamed, queryNamed, bodyNamed, apart, noReceiver, rfl⟩ :=
    buildMethod_eq_ok built
  have coherent := isCoherent_assembled pathNamed queryNamed bodyNamed apart noReceiver
  have names := Operation.Body.nodup_ofOperation distinct
  rw [← body] at names
  refine ⟨_, coherent, sends_assembled pathNamed queryNamed bodyNamed coherent pathRequired names ?_⟩
  intro fields files multipart
  exact Operation.Body.isFile_of_multipart (body.symm.trans multipart)

/-- An operation that takes a name in its path, another one of the same name in its query, and a form
with a plain field of this name and a file. -/
def photoOperation : Operation where
  path := "/pets/\x7bid\x7d"
  verb := .put
  raw := [
    ("parameters", .array [
      .object [("name", .text "id"), ("in", .text "path")],
      .object [("name", .text "page"), ("in", .text "query")],
      .object [("name", .text "id"), ("in", .text "query"), ("required", .bool true)]]),
    ("requestBody", .object [
      ("required", .bool true),
      ("content", .object [
        ("multipart/form-data", .object [
          ("schema", .object [
            ("required", .array [.text "photo"]),
            ("properties", .object [
              ("photo", .object [("type", .text "string"), ("format", .text "binary")]),
              ("id", .object [("type", .text "string")])])])])])])]
  pathParameters := []

theorem exists_isCoherent_sends_photoOperation :
    ∃ extracted method resolved, photoOperation.extract = .ok extracted ∧
      buildMethod extracted = .ok method ∧ method.plan.required = ["id", "id_query", "photo"] ∧
      IsCoherent extracted resolved method ∧ ∀ arguments, Sends extracted resolved method arguments := by
  have distinct : (Json.object photoOperation.raw).HasDistinctKeys := by
    simp [photoOperation, Json.hasDistinctKeys_object_iff, Json.hasDistinctKeys_array_iff, Members.keys]
  have asked : ((photoOperation.extract >>= buildMethod).toOption.map fun method =>
      method.plan.required) = some ["id", "id_query", "photo"] := by decide +kernel
  cases both : photoOperation.extract >>= buildMethod with
  | error fault =>
    rw [both] at asked
    cases asked
  | ok method =>
    rw [both] at asked
    obtain ⟨extracted, done, built⟩ := bind_eq_ok.mp both
    obtain ⟨resolved, coherent, sends⟩ := exists_isCoherent_sends done built distinct
    exact ⟨extracted, method, resolved, done, built, Option.some.inj asked, coherent, sends⟩

end ApiSurface.Client
