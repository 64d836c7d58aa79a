/-
This file proves that the parts of a method agree. Signature, plan and documentation are all made from
one list of parameters, in which each declaration stands once, in the order path, query, body. The
signature moves those that must be given to the front; the plan binds each of them in the place in
which it travels; and the documentation has an entry for each, in the order of the signature.
-/

import ApiSurface.Proofs.Client.Naming

namespace ApiSurface.Client

open Name (Allocator)

/-! ### Making a method -/

/-- The method whose parameters have got their names. -/
def assembled (operation : ExtractedOperation) (inPath inQuery inBody : List Parameter) : Method :=
  let parameters := requiredFirst (inPath ++ inQuery ++ inBody)
  let plan : RequestPlan := {
    verb := operation.verb
    path := operation.path
    required := (parameters.filter fun parameter => parameter.required).map Parameter.internal
    pathBindings := inPath.map bindingOf
    queryBindings := inQuery.map bindingOf
    body := shapeOf operation.body inBody }
  { name := Name.ofOperation operation.identifier operation.verb operation.path
    parameters
    doc := documentation operation parameters
    marker := some ⟨operation.verb, operation.path⟩
    plan
    returnKind := operation.returnKind
    signature := signature parameters
    returnType := returnType operation.returnKind
    body := statements plan operation.returnKind }

/-- The parameters of the path get their names first, then those of the query, then those of the body;
beside them only the names of a receiver are taken in the end. -/
theorem exists_nameAll_of_buildMethod {operation : ExtractedOperation} {method : Method}
    (built : buildMethod operation = .ok method) :
    ∃ inPath inQuery inBody afterPath afterQuery afterBody,
      nameAll .path .forParameters operation.pathParameters = .ok (inPath, afterPath) ∧
      nameAll .query afterPath operation.queryParameters = .ok (inQuery, afterQuery) ∧
      nameAll .body afterQuery (bodyParameters operation.body) = .ok (inBody, afterBody) ∧
      afterBody.taken =
        ((inPath ++ inQuery ++ inBody).map Parameter.internal).reverse ++ Name.receivers ∧
      method = assembled operation inPath inQuery inBody := by
  obtain ⟨⟨inPath, afterPath⟩, pathDone, built⟩ := bind_eq_ok.mp built
  obtain ⟨⟨inQuery, afterQuery⟩, queryDone, built⟩ := bind_eq_ok.mp built
  obtain ⟨⟨inBody, afterBody⟩, bodyDone, built⟩ := bind_eq_ok.mp built
  refine ⟨inPath, inQuery, inBody, afterPath, afterQuery, afterBody, pathDone, queryDone, bodyDone, ?_,
    (Except.ok.inj built).symm⟩
  obtain ⟨-, pathTaken, -⟩ := nameAll_eq_ok pathDone
  obtain ⟨-, queryTaken, -⟩ := nameAll_eq_ok queryDone
  obtain ⟨-, bodyTaken, -⟩ := nameAll_eq_ok bodyDone
  rw [bodyTaken, queryTaken, pathTaken, List.map_append, List.map_append, List.reverse_append,
    List.reverse_append, List.append_assoc, List.append_assoc]
  rfl

/-- A method is made from parameters whose names are pairwise different and none that of a receiver. -/
theorem buildMethod_eq_ok {operation : ExtractedOperation} {method : Method}
    (built : buildMethod operation = .ok method) :
    ∃ inPath inQuery inBody,
      List.Forall₂ (IsNamed .path) operation.pathParameters inPath ∧
      List.Forall₂ (IsNamed .query) operation.queryParameters inQuery ∧
      List.Forall₂ (IsNamed .body) (bodyParameters operation.body) inBody ∧
      ((inPath ++ inQuery ++ inBody).map Parameter.internal).Nodup ∧
      (∀ parameter ∈ inPath ++ inQuery ++ inBody, parameter.internal ∉ Name.receivers) ∧
      method = assembled operation inPath inQuery inBody := by
  obtain ⟨inPath, inQuery, inBody, _, _, _, pathDone, queryDone, bodyDone, taken, made⟩ :=
    exists_nameAll_of_buildMethod built
  obtain ⟨pathNamed, -, pathDistinct⟩ := nameAll_eq_ok pathDone
  obtain ⟨queryNamed, -, queryDistinct⟩ := nameAll_eq_ok queryDone
  obtain ⟨bodyNamed, -, bodyDistinct⟩ := nameAll_eq_ok bodyDone
  have distinct := bodyDistinct (queryDistinct (pathDistinct (by decide)))
  rw [taken, List.nodup_append] at distinct
  obtain ⟨reversed, -, apart⟩ := distinct
  refine ⟨inPath, inQuery, inBody, pathNamed, queryNamed, bodyNamed, List.nodup_reverse.mp reversed,
    fun parameter member receiver => ?_, made⟩
  exact apart _ (List.mem_reverse.mpr (List.mem_map_of_mem member)) _ receiver rfl

theorem requiredFirst_perm (parameters : List Parameter) :
    (requiredFirst parameters).Perm parameters :=
  List.filter_append_perm _ _

/-- Making a method fails only because no name is free. -/
theorem buildMethod_eq_error {operation : ExtractedOperation} {fault : Fault}
    (failed : buildMethod operation = .error fault) : fault.isNameCollision = true := by
  rcases bind_eq_error.mp failed with naming | ⟨_, -, failed⟩
  · exact nameAll_eq_error naming
  rcases bind_eq_error.mp failed with naming | ⟨_, -, failed⟩
  · exact nameAll_eq_error naming
  rcases bind_eq_error.mp failed with naming | ⟨_, -, failed⟩
  · exact nameAll_eq_error naming
  · cases failed

/-! ### Coherence -/

/-- The declared parameters of an operation with the places in which they travel, in order. -/
def declaredParameters (operation : ExtractedOperation) : List (Location × Operation.Parameter) :=
  operation.pathParameters.map (Prod.mk .path) ++ operation.queryParameters.map (Prod.mk .query) ++
    (bodyParameters operation.body).map (Prod.mk .body)

/-- How a body binds the parameters that travel in it: each of them once, in order, under its name in
the signature and, where the body sends names, the name under which it is sent. -/
inductive BindsBody : Operation.Body → List Parameter → BodyShape → Prop
  | none : BindsBody .none [] .none
  | multipart {fields files : List Operation.Parameter} (plain attached : List Parameter)
    (same : plain.length = fields.length) :
    BindsBody (.multipart fields files) (plain ++ attached)
      (.multipart (plain.map bindingOf) (attached.map bindingOf))
  | form {fields : List Operation.Parameter} (parameters : List Parameter) :
    BindsBody (.form fields) parameters (.form (parameters.map bindingOf))
  | jsonObject {contentType : String} {fields : List Operation.Parameter}
    (parameters : List Parameter) :
    BindsBody (.jsonObject contentType fields) parameters
      (.jsonObject contentType (parameters.map bindingOf))
  | jsonArray {contentType : String} {raw : Operation.Parameter} (parameter : Parameter) :
    BindsBody (.jsonArray contentType raw) [parameter] (.jsonArray contentType parameter.internal)
  | jsonAny {contentType : String} {raw : Operation.Parameter} (parameter : Parameter) :
    BindsBody (.jsonAny contentType raw) [parameter] (.jsonAny contentType parameter.internal)
  | raw {contentType : String} {raw : Operation.Parameter} (parameter : Parameter) :
    BindsBody (.raw contentType raw) [parameter] (.raw contentType parameter.internal)

/-- What makes the parts of a method agree. `resolved` are its parameters in the order of their
declaration. -/
structure IsCoherent (operation : ExtractedOperation) (resolved : List Parameter) (method : Method) :
    Prop where
  /-- Each declaration becomes one parameter. -/
  declared : List.Forall₂
    (fun declaration parameter =>
      parameter = named parameter.internal declaration.1 declaration.2)
    (declaredParameters operation) resolved
  /-- The signature has those that must be given first, and keeps the order otherwise. -/
  order : method.parameters =
    resolved.filter (fun parameter => parameter.required) ++
      resolved.filter fun parameter => !parameter.required
  /-- All parameters are in the signature, each of them once. -/
  permutation : method.parameters.Perm resolved
  /-- The names are pairwise different. -/
  distinct : (method.parameters.map Parameter.internal).Nodup
  /-- The names are identifiers, and none of them means something else. -/
  names : ∀ parameter ∈ method.parameters,
    Name.IsIdentifier parameter.internal ∧ parameter.internal ≠ "this" ∧ parameter.internal ≠ "self" ∧
      Name.isReserved parameter.internal = false ∧ parameter.internal.toList.head? ≠ some '_'
  /-- The plan asks for those that must be given, in the order of the signature. -/
  required : method.plan.required =
    (method.parameters.filter fun parameter => parameter.required).map Parameter.internal
  /-- The plan binds each parameter once. -/
  bound : (method.plan.pathBindings ++ method.plan.queryBindings).map Binding.internal ++
    method.plan.body.parameters = resolved.map Parameter.internal
  /-- The path binds those that travel in it. -/
  path : method.plan.pathBindings =
    (resolved.filter fun parameter => parameter.location = .path).map bindingOf
  /-- The query binds those that travel in it. -/
  query : method.plan.queryBindings =
    (resolved.filter fun parameter => parameter.location = .query).map bindingOf
  /-- The body binds those that travel in it. -/
  body : BindsBody operation.body (resolved.filter fun parameter => parameter.location = .body)
    method.plan.body
  /-- The documentation has an entry for each, in the order of the signature. -/
  documented : method.doc.arguments.map DocBlock.Argument.name =
    method.parameters.map Parameter.internal

theorem bindsBody_shapeOf {body : Operation.Body} {parameters : List Parameter}
    (named : List.Forall₂ (IsNamed .body) (bodyParameters body) parameters) :
    BindsBody body parameters (shapeOf body parameters) := by
  cases body with
  | none =>
    rw [List.forall₂_nil_left_iff.mp named]
    exact .none
  | multipart fields files =>
    have enough : fields.length ≤ parameters.length := by
      rw [← named.length_eq, bodyParameters, List.length_append]
      exact Nat.le_add_right _ _
    have split : BindsBody (.multipart fields files)
        (parameters.take fields.length ++ parameters.drop fields.length)
        (shapeOf (.multipart fields files) parameters) :=
      .multipart _ _ (List.length_take_of_le enough)
    rw [List.take_append_drop] at split
    exact split
  | form fields => exact .form parameters
  | jsonObject contentType fields => exact .jsonObject parameters
  | jsonArray contentType raw =>
    obtain ⟨parameter, rest, -, none, rfl⟩ := List.forall₂_cons_left_iff.mp named
    rw [List.forall₂_nil_left_iff.mp none]
    exact .jsonArray parameter
  | jsonAny contentType raw =>
    obtain ⟨parameter, rest, -, none, rfl⟩ := List.forall₂_cons_left_iff.mp named
    rw [List.forall₂_nil_left_iff.mp none]
    exact .jsonAny parameter
  | raw contentType raw =>
    obtain ⟨parameter, rest, -, none, rfl⟩ := List.forall₂_cons_left_iff.mp named
    rw [List.forall₂_nil_left_iff.mp none]
    exact .raw parameter

theorem BindsBody.parameters_eq {body : Operation.Body} {parameters : List Parameter}
    {shape : BodyShape} (binds : BindsBody body parameters shape) :
    shape.parameters = parameters.map Parameter.internal := by
  have names (bound : List Parameter) :
      (bound.map bindingOf).map Binding.internal = bound.map Parameter.internal := List.map_map
  cases binds with
  | multipart plain attached =>
    rw [BodyShape.parameters, List.map_append, names, names, List.map_append]
  | form parameters => exact names parameters
  | jsonObject parameters => exact names parameters
  | _ => rfl

theorem exists_of_forall₂_mem {Left Right : Type} {stands : Left → Right → Prop} {lefts : List Left}
    {rights : List Right} (each : List.Forall₂ stands lefts rights) {right : Right}
    (member : right ∈ rights) : ∃ left ∈ lefts, stands left right := by
  induction each with
  | nil => exact absurd member List.not_mem_nil
  | cons pair _ inductionHypothesis =>
    rcases List.mem_cons.mp member with rfl | further
    · exact ⟨_, List.mem_cons_self, pair⟩
    · obtain ⟨left, inside, found⟩ := inductionHypothesis further
      exact ⟨left, List.mem_cons_of_mem _ inside, found⟩

/-- Of parameters that all travel in one place, those that travel in a given one. -/
theorem filter_location {location : Location} {raws : List Operation.Parameter}
    {parameters : List Parameter} (each : List.Forall₂ (IsNamed location) raws parameters)
    (wanted : Location) :
    parameters.filter (fun parameter => parameter.location = wanted) =
      if location = wanted then parameters else [] := by
  have place (parameter : Parameter) (member : parameter ∈ parameters) :
      parameter.location = location := by
    obtain ⟨raw, -, stands⟩ := exists_of_forall₂_mem each member
    exact stands.location_eq
  split
  · next same =>
    exact List.filter_eq_self.mpr fun parameter member =>
      decide_eq_true ((place parameter member).trans same)
  · next different =>
    exact List.filter_eq_nil_iff.mpr fun parameter member found =>
      different ((place parameter member).symm.trans (of_decide_eq_true found))

theorem forall₂_declared {location : Location} {raws : List Operation.Parameter}
    {parameters : List Parameter} (each : List.Forall₂ (IsNamed location) raws parameters) :
    List.Forall₂
      (fun (declaration : Location × Operation.Parameter) parameter =>
        IsNamed declaration.1 declaration.2 parameter)
      (raws.map (Prod.mk location)) parameters :=
  List.forall₂_map_left_iff.mpr each

section

variable {operation : ExtractedOperation} {inPath inQuery inBody : List Parameter}

/-- Each declaration of an operation becomes one parameter. -/
theorem forall₂_declaredParameters
    (pathNamed : List.Forall₂ (IsNamed .path) operation.pathParameters inPath)
    (queryNamed : List.Forall₂ (IsNamed .query) operation.queryParameters inQuery)
    (bodyNamed : List.Forall₂ (IsNamed .body) (bodyParameters operation.body) inBody) :
    List.Forall₂
      (fun declaration parameter => IsNamed declaration.1 declaration.2 parameter)
      (declaredParameters operation) (inPath ++ inQuery ++ inBody) :=
  List.rel_append (List.rel_append (forall₂_declared pathNamed) (forall₂_declared queryNamed))
    (forall₂_declared bodyNamed)

theorem filter_location_append
    (pathNamed : List.Forall₂ (IsNamed .path) operation.pathParameters inPath)
    (queryNamed : List.Forall₂ (IsNamed .query) operation.queryParameters inQuery)
    (bodyNamed : List.Forall₂ (IsNamed .body) (bodyParameters operation.body) inBody)
    (wanted : Location) :
    (inPath ++ inQuery ++ inBody).filter (fun parameter => parameter.location = wanted) =
      (if Location.path = wanted then inPath else []) ++
        (if Location.query = wanted then inQuery else []) ++
        if Location.body = wanted then inBody else [] := by
  rw [List.filter_append, List.filter_append, filter_location pathNamed, filter_location queryNamed,
    filter_location bodyNamed]

/-- The method that is made from named parameters is coherent. -/
theorem isCoherent_assembled
    (pathNamed : List.Forall₂ (IsNamed .path) operation.pathParameters inPath)
    (queryNamed : List.Forall₂ (IsNamed .query) operation.queryParameters inQuery)
    (bodyNamed : List.Forall₂ (IsNamed .body) (bodyParameters operation.body) inBody)
    (distinct : ((inPath ++ inQuery ++ inBody).map Parameter.internal).Nodup)
    (noReceiver : ∀ parameter ∈ inPath ++ inQuery ++ inBody, parameter.internal ∉ Name.receivers) :
    IsCoherent operation (inPath ++ inQuery ++ inBody)
      (assembled operation inPath inQuery inBody) := by
  have permutation := requiredFirst_perm (inPath ++ inQuery ++ inBody)
  have binds := bindsBody_shapeOf bodyNamed
  have inPlace := filter_location_append pathNamed queryNamed bodyNamed
  refine {
    declared := ?_
    order := rfl
    permutation := permutation
    distinct := (permutation.map _).nodup_iff.mpr distinct
    names := fun parameter member => ?_
    required := rfl
    bound := ?_
    path := ?_
    query := ?_
    body := ?_
    documented := List.map_map }
  · exact (forall₂_declaredParameters pathNamed queryNamed bodyNamed).imp fun _ _ stands => stands.1
  · have inside := permutation.mem_iff.mp member
    obtain ⟨declaration, -, stands⟩ :=
      exists_of_forall₂_mem (forall₂_declaredParameters pathNamed queryNamed bodyNamed) inside
    have apart := noReceiver parameter inside
    have identifier := stands.isIdentifier
    refine ⟨identifier, fun same => apart ?_, fun same => apart ?_,
      Bool.eq_false_iff.mpr fun reserved => apart (stands.mem_receivers reserved),
      identifier.head?_ne_underscore⟩
    · rw [same]
      exact List.mem_cons_self
    · rw [same]
      exact List.mem_cons_of_mem _ List.mem_cons_self
  · show (inPath.map bindingOf ++ inQuery.map bindingOf).map Binding.internal ++
      (shapeOf operation.body inBody).parameters = _
    rw [binds.parameters_eq, List.map_append, List.map_append, List.map_append, List.map_map,
      List.map_map]
    rfl
  · rw [inPlace, if_pos rfl, if_neg (by decide), if_neg (by decide), List.append_nil, List.append_nil]
    rfl
  · rw [inPlace, if_neg (by decide), if_pos rfl, if_neg (by decide), List.nil_append, List.append_nil]
    rfl
  · rw [inPlace, if_neg (by decide), if_neg (by decide), if_pos rfl, List.nil_append, List.nil_append]
    exact binds

end

/-- Every method that is made for an operation is coherent, and making one fails only because no name
is free for one of its parameters. -/
theorem buildMethod_coherent (operation : ExtractedOperation) :
    match buildMethod operation with
    | .ok method => ∃ resolved, IsCoherent operation resolved method
    | .error fault => fault.isNameCollision = true := by
  cases built : buildMethod operation with
  | error fault => exact buildMethod_eq_error built
  | ok method =>
    obtain ⟨inPath, inQuery, inBody, pathNamed, queryNamed, bodyNamed, distinct, noReceiver, rfl⟩ :=
      buildMethod_eq_ok built
    exact ⟨_, isCoherent_assembled pathNamed queryNamed bodyNamed distinct noReceiver⟩

/-- Names that are taken or reserved still give a method. -/
example :
    ((buildMethod {
      path := "/pets/\x7bthis\x7d"
      verb := .get
      identifier := none
      summary := ""
      description := ""
      tags := []
      pathParameters := [⟨"this", .object [], "", true, none, false⟩]
      queryParameters := [⟨"delete", .object [], "", false, none, false⟩,
        ⟨"this", .object [], "", true, none, false⟩, ⟨"this", .object [], "", true, none, false⟩]
      body := .none
      returnKind := .unknown
      returnsDescription := "" }).toOption.map fun method =>
        method.parameters.map Parameter.internal) =
      some ["this_path", "this_query", "this_query_2", "delete_"] := by
  decide

end ApiSurface.Client
