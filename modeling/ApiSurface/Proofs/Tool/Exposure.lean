/-
This file proves that nothing but its schemas keeps a method of a client from becoming a tool. A model
refuses names that are not for callers and names that come twice, and a registry refuses a tool whose
name is taken; but the names that a client gives to parameters and methods were chosen from those that
are free, among names that start with a letter. So the fields of a model are the parameters of the
signature, and all that may still fail is that their schemas do not compile.
-/

import ApiSurface.Proofs.Tool.Operation

namespace ApiSurface

open Json (Members)

/-! ### Models -/

namespace ArgumentModel

variable {tool : Tool} {doc : DocBlock}

/-- Parameters with names for callers, none of them twice, all become fields. -/
theorem exists_collectFields {parameters : List ToolParameter} {found : List Field × Members}
    (free : ∀ parameter ∈ parameters, isReservedName parameter.name = false)
    (distinct : (found.1.map Field.name ++ parameters.map ToolParameter.name).Nodup) :
    ∃ collected, collectFields doc parameters found = .ok collected := by
  fun_induction collectFields doc parameters found with
  | case1 found => exact ⟨found, rfl⟩
  | case2 parameter rest fields definitions reserved =>
    exact absurd (free parameter List.mem_cons_self) (by simp [reserved])
  | case3 parameter rest fields definitions _ repeated =>
    obtain ⟨field, known, same⟩ := List.any_eq_true.mp repeated
    refine absurd rfl ((List.nodup_append.mp distinct).2.2 _ (List.mem_map_of_mem known) _ ?_)
    rw [beq_iff_eq.mp same]
    exact List.mem_cons_self
  | case4 parameter rest fields definitions _ _ field added made inductionHypothesis =>
    have named : field.name = parameter.name := by
      rw [show field = fieldOf doc parameter by rw [fieldOf, made]]
      rfl
    refine inductionHypothesis (fun other member => free other (List.mem_cons_of_mem _ member)) ?_
    rw [List.map_append, List.map_singleton, named, List.append_assoc]
    exact distinct

/-- A tool with a parameter for each bound value, of which the others have names for callers, none of them
twice, has a model exactly if the schema of its fields compiles. -/
theorem build_of_free [SchemaLibrary] (within : tool.bound.length ≤ tool.parameters.length)
    (free : ∀ parameter ∈ tool.freeParameters, isReservedName parameter.name = false)
    (distinct : (tool.freeParameters.map ToolParameter.name).Nodup) :
    build tool doc =
      match SchemaLibrary.checkFor? (objectSchema Field.validation (tool.freeParameters.map (fieldOf doc))
        (definitionsOf doc tool.freeParameters [])) with
      | some validator =>
        .ok ⟨tool.name, tool.freeParameters.map (fieldOf doc), definitionsOf doc tool.freeParameters [],
          validator⟩
      | none => .error "argument schema does not compile" := by
  obtain ⟨collected, done⟩ :
      ∃ collected, collectFields doc tool.freeParameters ([], []) = .ok collected :=
    exists_collectFields free distinct
  obtain ⟨rfl, -⟩ := collectFields_eq_ok done
  rw [build, if_neg (Nat.not_lt.mpr within), done]
  rfl

/-- A tool without bound parameters whose parameters have names for callers, none of them twice, has a
model exactly if the schema of its fields compiles. -/
theorem build_eq [SchemaLibrary] (unbound : tool.bound = [])
    (free : ∀ parameter ∈ tool.parameters, isReservedName parameter.name = false)
    (distinct : (tool.parameters.map ToolParameter.name).Nodup) :
    build tool doc =
      match SchemaLibrary.checkFor? (objectSchema Field.validation (tool.parameters.map (fieldOf doc))
        (definitionsOf doc tool.parameters [])) with
      | some validator =>
        .ok ⟨tool.name, tool.parameters.map (fieldOf doc), definitionsOf doc tool.parameters [], validator⟩
      | none => .error "argument schema does not compile" := by
  have all : tool.freeParameters = tool.parameters := by
    rw [Tool.freeParameters, unbound, List.length_nil, List.drop_zero]
  have within : tool.bound.length ≤ tool.parameters.length := by
    rw [unbound]
    exact Nat.zero_le _
  rw [← all] at free distinct ⊢
  exact build_of_free within free distinct

end ArgumentModel

/-! ### Registries -/

namespace ToolRegistry

variable [SchemaLibrary] {registry : ToolRegistry} {tool : Tool}

theorem register_eq (free : registry.find? tool.name = none) :
    registry.register tool = (RegisteredTool.ofTool tool).map fun ready =>
      { registry with tools := registry.tools ++ [ready] } := by
  rw [register, free, if_neg (by simp)]
  cases RegisteredTool.ofTool tool <;> rfl

theorem find?_registerOrSkip {name : String} (free : registry.find? name = none)
    (other : tool.name ≠ name) : (registry.registerOrSkip tool).find? name = none := by
  unfold registerOrSkip
  split
  · next extended done =>
    obtain ⟨-, ready, made, rfl⟩ := register_eq_ok done
    rw [find?] at free ⊢
    rw [List.find?_append, free]
    simp [name_of_ofTool made, other]
  · exact free

/-- Tools with other names leave a name free. -/
theorem find?_foldl_registerOrSkip {name : String} {tools : List Tool}
    (free : registry.find? name = none) (others : name ∉ tools.map Tool.name) :
    (tools.foldl registerOrSkip registry).find? name = none := by
  induction tools generalizing registry with
  | nil => exact free
  | cons first rest inductionHypothesis =>
    rw [List.map_cons, List.mem_cons, not_or] at others
    exact inductionHypothesis (find?_registerOrSkip free (Ne.symm others.1)) others.2

/-- Of tools with pairwise different names that are free, all are registered that can be made. -/
theorem tools_foldl_registerOrSkip {tools : List Tool} (distinct : (tools.map Tool.name).Nodup)
    (free : ∀ tool ∈ tools, registry.find? tool.name = none) :
    (tools.foldl registerOrSkip registry).tools =
      registry.tools ++ tools.filterMap fun tool => (RegisteredTool.ofTool tool).toOption := by
  induction tools generalizing registry with
  | nil => rw [List.filterMap_nil, List.append_nil, List.foldl_nil]
  | cons first rest inductionHypothesis =>
    obtain ⟨new, distinct⟩ := List.nodup_cons.mp distinct
    obtain ⟨freeFirst, freeRest⟩ := List.forall_mem_cons.mp free
    have further (tool : Tool) (member : tool ∈ rest) :
        (registry.registerOrSkip first).find? tool.name = none :=
      find?_registerOrSkip (freeRest tool member) fun same => new (same ▸ List.mem_map_of_mem member)
    rw [List.foldl_cons, inductionHypothesis distinct further, List.filterMap_cons, registerOrSkip,
      register_eq freeFirst]
    cases RegisteredTool.ofTool first with
    | error fault => rfl
    | ok ready => exact List.append_assoc _ _ _

end ToolRegistry

/-! ### Methods -/

/-- What becomes of the methods of a client as tools. -/
structure OffersMethods [SchemaLibrary] (client : Client) : Prop where
  /-- A method whose schemas compile has a model with a field for each of its parameters, in the order of
  the signature, which must be given if the parameter must; another method has none, for this reason. -/
  models : ∀ method ∈ client.methods, ∀ doc, ∃ fields definitions,
    fields.map (fun field => (field.name, field.isRequired)) =
      method.parameters.map (fun parameter => (parameter.internal, parameter.required)) ∧
    ArgumentModel.build (Tool.ofMethod method) doc =
      match SchemaLibrary.checkFor? (ArgumentModel.objectSchema Field.validation fields definitions) with
      | some validator => .ok ⟨method.name, fields, definitions, validator⟩
      | none => .error "argument schema does not compile"
  /-- The name of a method is free when its turn comes to be registered. -/
  free : ∀ before method after, client.methods = before ++ method :: after →
    ((before.map Tool.ofMethod).foldl ToolRegistry.registerOrSkip .empty).find? method.name = none
  /-- All tools are registered that have a model, in the order of their methods. -/
  registered : (ToolRegistry.ofClient client).tools =
    client.methods.filterMap fun method => (RegisteredTool.ofTool (Tool.ofMethod method)).toOption

theorem ArgumentModel.isReservedName_of_isCoherent {operation : ExtractedOperation}
    {resolved : List Parameter} {method : Method}
    (coherent : Client.IsCoherent operation resolved method) {parameter : Parameter}
    (listed : parameter ∈ method.parameters) :
    ArgumentModel.isReservedName parameter.internal = false := by
  obtain ⟨-, notThis, notSelf, -, start⟩ := coherent.names parameter listed
  have noPrefix : parameter.internal.startsWith "_" = false := by
    rw [String.startsWith_string_eq_false_iff]
    rintro ⟨rest, whole⟩
    exact start (by rw [← whole]; rfl)
  simp [ArgumentModel.isReservedName, noPrefix, Name.receivers, notThis, notSelf]

/-- The methods of a generated client become tools unless their schemas do not compile. -/
theorem offersMethods_of_generate [SchemaLibrary] {document : OpenApi.Document} {config : Config}
    {client : Client} (generated : Client.generate document config = .ok client) :
    OffersMethods client := by
  have distinct := Client.nodup_methodNames generated
  have names : (Tool.ofClient client).map Tool.name = client.methods.map Method.name := List.map_map
  refine {
    models := fun method member doc => ?_
    free := fun before method after whole => ?_
    registered := ?_ }
  · obtain ⟨-, -, operation, resolved, -, coherent, -, -⟩ :=
      Client.exists_coherent_of_mem generated member
    refine ⟨_, _, ?_, ArgumentModel.build_eq rfl (fun parameter listed => ?_) ?_⟩
    · refine List.map_map.trans (List.map_map.trans (List.map_congr_left fun parameter _ => ?_))
      have required : (ArgumentModel.fieldOf doc (Tool.parameterOf parameter)).isRequired =
          parameter.required := by
        show (if parameter.required then none else some _ : Option Json).isNone = _
        cases parameter.required <;> rfl
      exact congrArg (Prod.mk parameter.internal) required
    · obtain ⟨given, inside, rfl⟩ := List.mem_map.mp listed
      exact ArgumentModel.isReservedName_of_isCoherent coherent inside
    · exact (List.map_map (l := method.parameters)).symm ▸ coherent.distinct
  · rw [whole, List.map_append, List.map_cons] at distinct
    refine ToolRegistry.find?_foldl_registerOrSkip rfl fun taken => ?_
    have early : method.name ∈ before.map Method.name := by
      rw [List.map_map] at taken
      exact taken
    exact (List.nodup_append.mp distinct).2.2 _ early _ List.mem_cons_self rfl
  · refine (ToolRegistry.tools_foldl_registerOrSkip (names ▸ distinct) fun tool _ => rfl).trans ?_
    rw [ToolRegistry.empty, List.nil_append, Tool.ofClient, List.filterMap_map]
    rfl

/-- A document with parameters that have the names of a receiver, a name that is not for callers and one
name in two places, with an identifier that two operations share, and with a schema that does not
compile. -/
def crowdedDocument : OpenApi.Document where
  root := .object [("paths", .object [
    ("/pets/\x7bthis\x7d", .object [("get", .object [("operationId", .text "list_tools"),
      ("parameters", .array [
        .object [("name", .text "this"), ("in", .text "query"), ("required", .bool true)],
        .object [("name", .text "_id"), ("in", .text "query")],
        .object [("name", .text "this"), ("in", .text "path"),
          ("schema", .object [("type", .text "integer")])]])])]),
    ("/pets", .object [("get", .object [("operationId", .text "list_tools")]),
      ("head", .object [("operationId", .text "probe"),
        ("parameters", .array [.object [("name", .text "self"), ("in", .text "query"),
          ("schema", .object [("type", .text "nonsense")])]])])])])]
  title := "Pets"
  baseUrl := ""

theorem offersMethods_of_generate_crowdedDocument : ∃ client,
    Client.generate crowdedDocument {} = .ok client ∧
    client.methods.map (fun method => (method.name, method.parameters.map Parameter.internal)) =
      [("list_tools_2", ["this_path", "this_query", "id"]), ("list_tools_3", []),
        ("probe", ["self_query"])] ∧
    client.methods.map (fun method =>
      (ArgumentModel.build (Tool.ofMethod method) .empty).toOption.isSome) = [true, true, false] ∧
    OffersMethods client := by
  obtain ⟨client, generated, named, modelled⟩ : ∃ client,
      Client.generate crowdedDocument {} = .ok client ∧
      client.methods.map (fun method => (method.name, method.parameters.map Parameter.internal)) =
        [("list_tools_2", ["this_path", "this_query", "id"]), ("list_tools_3", []),
          ("probe", ["self_query"])] ∧
      client.methods.map (fun method =>
        (ArgumentModel.build (Tool.ofMethod method) .empty).toOption.isSome) = [true, true, false] :=
    ⟨_, rfl, by decide +kernel, by decide +kernel⟩
  exact ⟨client, generated, named, modelled, offersMethods_of_generate generated⟩

end ApiSurface
