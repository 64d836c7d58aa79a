/-
This file proves when an argument of null is the same as none. A parameter with null as its default
allows null, whatever its schema says, and gets null when it is not given, so the tool gets the same
arguments either way. The other arguments are checked as they were, each against the schema of its field.
An optional parameter of an API tool has null as its default unless its schema names another one.
-/

import ApiSurface.Proofs.Tool.Acceptance
import ApiSurface.Proofs.Tool.Operation

namespace ApiSurface

open Json (Members)

/-! ### Arguments of null -/

namespace ArgumentModel

variable {tool : Tool} {doc : DocBlock} {model : ArgumentModel} {field : Field}

theorem known_concat_null (model : ArgumentModel) (arguments : Members) {name : String}
    (isField : (model.field? name).isSome = true) :
    model.known (decodeArguments (arguments ++ [(name, .null)])) =
      model.known (decodeArguments arguments) ++ [(name, .null)] := by
  simp [known, decodeArguments, decodeNested, isField]

theorem complete_concat_null (distinct : (model.fields.map Field.name).Nodup)
    (listed : field ∈ model.fields) (default : field.default? = some .null) {arguments : Members}
    (absent : arguments.get? field.name = none) :
    model.complete (arguments ++ [(field.name, .null)]) = model.complete arguments := by
  refine List.filterMap_congr fun other inside => ?_
  rw [Members.get?_append, Members.get?_cons, Members.get?_nil]
  by_cases same : other.name = field.name
  · obtain rfl := List.inj_on_of_nodup_map distinct inside listed same
    rw [absent, if_pos rfl, default]
    rfl
  · rw [if_neg same, Option.or_none]

/-- If arguments are accepted without a parameter that has null as its default, then they are accepted
with null for it, and nothing else comes out. -/
theorem validate_insert_null [library : SchemaLibrary] {semantics : SchemaSemantics}
    (standard : semantics.IsStandard) (implements : library.Implements semantics)
    (made : ofTool tool doc = .ok model) (listed : field ∈ model.fields)
    (default : field.default? = some .null) {arguments checked : Members}
    (absent : arguments.get? field.name = none)
    (accepted : model.validate arguments = .ok checked) :
    model.validate (arguments.insert field.name .null) = .ok checked := by
  have isMadeOf := isMadeOf_of_ofTool made
  obtain ⟨isSchema, decides⟩ := implements _ _ isMadeOf.validator
  have known := field?_of_mem isMadeOf.distinct listed
  obtain ⟨none, rfl⟩ := validate_eq_ok_iff.mp accepted
  have unknown : (model.known (decodeArguments arguments)).get? field.name = Option.none := by
    rw [get?_known known, absent, Option.map_none]
  rw [validate_eq_ok_iff, Members.insert_of_notMem (Members.notMem_keys_of_get?_eq_none absent),
    known_concat_null model arguments (by rw [known]; rfl)]
  refine ⟨?_, complete_concat_null isMadeOf.distinct listed default unknown⟩
  rw [decides, standard.arguments_iff isMadeOf.distinct isSchema] at none ⊢
  obtain ⟨each, required⟩ := none
  refine ⟨fun other there value given => ?_, fun name needed => ?_⟩
  · rw [Members.get?_append] at given
    cases before : (model.known (decodeArguments arguments)).get? other.name with
    | some value =>
      rw [before, Option.some_or] at given
      exact each other there _ (before.trans given)
    | none =>
      rw [before, Option.none_or, Members.get?_cons] at given
      split at given
      · next same =>
        obtain rfl := List.inj_on_of_nodup_map isMadeOf.distinct there listed same
        obtain rfl := Option.some.inj given
        have fieldSchema := standard.isSchema_of_mem isMadeOf.distinct isSchema there
        obtain ⟨parameter, -, rfl⟩ := List.mem_map.mp (isMadeOf.fields ▸ there)
        exact Field.valid_null_fieldOf standard fieldSchema default
      · cases given
  · rw [Members.keys, List.map_append]
    exact List.mem_append_left _ (required name needed)

end ArgumentModel

/-! ### Tools of a client -/

namespace ToolRegistry

/-- The tool that has the name of a method was made from it. -/
theorem ofTool_of_find?_ofClient [SchemaLibrary] {document : OpenApi.Document} {config : Config}
    {client : Client}
    (generated : Client.generate document config = .ok client) {method : Method}
    (member : method ∈ client.methods) {tool : RegisteredTool}
    (found : (ofClient client).find? method.name = some tool) :
    RegisteredTool.ofTool (Tool.ofMethod method) = .ok tool := by
  obtain ⟨other, there, made⟩ := exists_of_mem_ofClient (List.mem_of_find?_eq_some found)
  have named : tool.name = other.name := name_of_ofTool made
  have asked : tool.name = method.name := by simpa using List.find?_some found
  rwa [List.inj_on_of_nodup_map (Client.nodup_methodNames generated) there member
    (named.symm.trans asked)] at made

theorem default?_fieldOf_parameterOf (doc : DocBlock) {parameter : Parameter}
    (optional : parameter.required = false)
    (plain : ∀ default, parameter.schema.get? "default" = some default → default = .null) :
    (ArgumentModel.fieldOf doc (Tool.parameterOf parameter)).default? = some .null := by
  show (if parameter.required then none else some ((parameter.schema.get? "default").getD .null)) = _
  rw [optional]
  cases named : parameter.schema.get? "default" with
  | none => rfl
  | some default => rw [plain default named]; rfl

/-- An optional parameter whose schema names no default other than null may be left out or be null: if a
call without it is accepted, then so is the call with null, which does the same. -/
theorem call_insert_null [library : SchemaLibrary] {semantics : SchemaSemantics}
    (standard : semantics.IsStandard) (implements : library.Implements semantics)
    {document : OpenApi.Document} {config : Config} {client : Client}
    (generated : Client.generate document config = .ok client) {method : Method}
    (member : method ∈ client.methods) {parameter : Parameter}
    (listed : parameter ∈ method.parameters) (optional : parameter.required = false)
    (plain : ∀ default, parameter.schema.get? "default" = some default → default = .null)
    {arguments : Members} (absent : arguments.get? parameter.internal = none)
    {accepted : RegisteredTool × Members}
    (prepared : (ofClient client).prepare method.name (.object arguments) = .ok accepted) :
    (ofClient client).prepare method.name (.object (arguments.insert parameter.internal .null)) =
        .ok accepted ∧
      (ofClient client).call method.name (.object (arguments.insert parameter.internal .null)) =
        (ofClient client).call method.name (.object arguments) := by
  have same : (ofClient client).prepare method.name
      (.object (arguments.insert parameter.internal .null)) = .ok accepted := by
    cases found : (ofClient client).find? method.name with
    | none =>
      rw [prepare, found] at prepared
      cases prepared
    | some tool =>
      obtain ⟨model, modelled, made⟩ :=
        bind_eq_ok.mp (ofTool_of_find?_ofClient generated member found)
      obtain rfl := Except.ok.inj made
      rw [prepare, found] at prepared ⊢
      obtain ⟨given, taken, further⟩ := bind_eq_ok.mp prepared
      obtain ⟨checked, validated, assembled⟩ := bind_eq_ok.mp further
      obtain rfl : arguments = given := Except.ok.inj taken
      have field : ArgumentModel.fieldOf (DocBlock.parse (Tool.ofMethod method).doc)
          (Tool.parameterOf parameter) ∈ model.fields := by
        rw [(ArgumentModel.isMadeOf_of_ofTool modelled).fields]
        exact List.mem_map_of_mem (List.mem_map_of_mem listed)
      have accepted := ArgumentModel.validate_insert_null standard implements modelled field
        (default?_fieldOf_parameterOf _ optional plain) absent validated
      exact bind_eq_ok.mpr ⟨_, rfl, bind_eq_ok.mpr ⟨checked, accepted, assembled⟩⟩
  exact ⟨same, by rw [call, call, same, prepared]⟩

/-- A document with optional parameters: one without a default, one with a default, and one with a
default that may also be null. -/
def searchDocument : OpenApi.Document where
  root := .object [("paths", .object [("/pets", .object [("get", .object [
    ("operationId", .text "search"),
    ("parameters", .array [
      .object [("name", .text "status"), ("in", .text "query"),
        ("schema", .object [("type", .text "string")])],
      .object [("name", .text "limit"), ("in", .text "query"),
        ("schema", .object [("type", .text "integer"), ("default", .number (.int 10))])],
      .object [("name", .text "page"), ("in", .text "query"),
        ("schema", .object [("type", .text "integer"), ("nullable", .bool true),
          ("default", .number (.int 1))])]])])])])]
  title := "Pets"
  baseUrl := ""

theorem call_insert_null_searchDocument : ∃ client method parameter accepted,
    (SchemaSemantics.bounded 0).IsStandard ∧ (SchemaLibrary.bounded 0).Implements (.bounded 0) ∧
    Client.generate searchDocument {} = .ok client ∧ method ∈ client.methods ∧
    parameter ∈ method.parameters ∧ parameter.required = false ∧
    (∀ default, parameter.schema.get? "default" = some default → default = .null) ∧
    (@ofClient (.bounded 0) client).prepare method.name (.object []) = .ok accepted ∧
    (@ofClient (.bounded 0) client).prepare method.name
      (.object (Members.insert [] parameter.internal .null)) = .ok accepted ∧
    (@ofClient (.bounded 0) client).call method.name
        (.object (Members.insert [] parameter.internal .null)) =
      (@ofClient (.bounded 0) client).call method.name (.object []) := by
  obtain ⟨client, method, generated, alone, status, computed⟩ : ∃ client method,
      Client.generate searchDocument {} = .ok client ∧ client.methods = [method] ∧
      (method.parameters.head?.map fun parameter =>
        (parameter.required, (parameter.schema.get? "default").isNone)) = some (false, true) ∧
      ((@ofClient (.bounded 0) client).prepare method.name (.object [])).toOption.isSome = true :=
    ⟨_, _, rfl, rfl, by decide +kernel, by decide +kernel⟩
  have member : method ∈ client.methods := alone ▸ List.mem_cons_self
  obtain ⟨parameter, first, facts⟩ := Option.map_eq_some_iff.mp status
  obtain ⟨optional, missing⟩ := Prod.mk.inj facts
  have listed := List.mem_of_head? first
  have plain : ∀ default, parameter.schema.get? "default" = some default → default = .null := by
    intro default named
    rw [Option.isNone_iff_eq_none.mp missing] at named
    cases named
  obtain ⟨accepted, done⟩ := Option.isSome_iff_exists.mp computed
  have prepared := eq_ok_of_toOption done
  have standard := SchemaSemantics.isStandard_bounded 0
  have implements := SchemaLibrary.implements_bounded 0
  exact ⟨client, method, parameter, accepted, standard, implements, generated, member, listed, optional,
    plain, prepared,
    @call_insert_null (.bounded 0) _ standard implements _ _ _ generated _ member _ listed optional plain
      _ rfl _ prepared⟩

/-- The queries of the requests that a call sends, with the values as text. -/
def sentQueries (registry : ToolRegistry) (name : String) (arguments : Members) :
    List (List (String × String)) :=
  (registry.call name (.object arguments)).requests.map fun request =>
    request.query.map fun (key, value) => (key, value.compact)

/-- Where the schema names a default other than null, null is refused; or it is accepted if the schema
allows it, and then the default is not sent. -/
theorem exists_null_not_omission : ∃ (library : SchemaLibrary) (semantics : SchemaSemantics)
    (client : Client) (method : Method), semantics.IsStandard ∧ library.Implements semantics ∧
    Client.generate searchDocument {} = .ok client ∧ client.methods = [method] ∧
    method.parameters.map (fun parameter => (parameter.internal, parameter.required)) =
      [("status", false), ("limit", false), ("page", false)] ∧
    sentQueries (ofClient client) method.name [] = [[("limit", "10"), ("page", "1")]] ∧
    sentQueries (ofClient client) method.name [("limit", .null)] = [] ∧
    sentQueries (ofClient client) method.name [("page", .null)] = [[("limit", "10")]] :=
  ⟨.bounded 0, .bounded 0, _, _, SchemaSemantics.isStandard_bounded 0,
    SchemaLibrary.implements_bounded 0, rfl, rfl, by decide +kernel, by decide +kernel,
    by decide +kernel, by decide +kernel⟩

end ToolRegistry

end ApiSurface
