/-
This file proves that the tools of a client say what its methods say, as far as the documentation of the
methods reads back. A registry only ever holds tools that were made from methods, and no two methods
have one name, so the tool of a name knows the summary, the tags and the parameters of its method.
-/

import ApiSurface.Proofs.Client.Documentation
import ApiSurface.Proofs.Tool.Registry

namespace ApiSurface

open Json (Members)

/-! ### Registries -/

/-- Every tool of a registry that is filled from methods was made from one of them. -/
theorem ToolRegistry.exists_of_mem_ofClient [SchemaLibrary] {client : Client} {tool : RegisteredTool}
    (member : tool ∈ (ToolRegistry.ofClient client).tools) :
    ∃ method ∈ client.methods, RegisteredTool.ofTool (Tool.ofMethod method) = .ok tool := by
  have run (methods : List Method) (registry : ToolRegistry)
      (inside : tool ∈ ((methods.map Tool.ofMethod).foldl registerOrSkip registry).tools) :
      tool ∈ registry.tools ∨
        ∃ method ∈ methods, RegisteredTool.ofTool (Tool.ofMethod method) = .ok tool := by
    induction methods generalizing registry with
    | nil => exact .inl inside
    | cons method rest inductionHypothesis =>
      rcases inductionHypothesis _ inside with early | ⟨other, later, made⟩
      · rcases ToolRegistry.mem_tools_registerOrSkip early with before | made
        · exact .inl before
        · exact .inr ⟨method, List.mem_cons_self, made⟩
      · exact .inr ⟨other, List.mem_cons_of_mem _ later, made⟩
  exact (run client.methods .empty member).resolve_left List.not_mem_nil

/-! ### What a tool says -/

/-- What the schema of a parameter says itself, before a description or title is added to it. -/
def Field.ownMembers (parameter : Parameter) : Members :=
  (Field.basisOf (Tool.parameterOf parameter) (some (Client.argumentOf parameter))).schema.asObject?.getD
    []

/-- A tool that says about a method what its documentation says. -/
structure Describes (tool : RegisteredTool) (method : Method) : Prop where
  /-- It has the name of the method. -/
  name : tool.name = method.name
  /-- It has its summary. -/
  summary : tool.descriptor.summary = method.doc.summary
  /-- It has its tags. -/
  tags : tool.descriptor.tags = method.doc.tags
  /-- It describes each parameter by what the schema says about itself, or else by what the method says
  about the parameter. -/
  descriptions : tool.model.fields.map (fun field => (field.name, field.description?)) =
    method.parameters.map fun parameter => (parameter.internal,
      (Field.textOf? (Field.ownMembers parameter) "description").orElse fun _ =>
        Field.documented? (some (Client.argumentOf parameter)))

theorem argument?_argumentOf {parameters : List Parameter}
    (distinct : (parameters.map Parameter.internal).Nodup) {parameter : Parameter}
    (member : parameter ∈ parameters) :
    Keyed.find? DocBlock.Argument.name parameter.internal (parameters.map Client.argumentOf) =
      some (Client.argumentOf parameter) := by
  induction parameters with
  | nil => exact absurd member List.not_mem_nil
  | cons first rest inductionHypothesis =>
    obtain ⟨new, distinct⟩ := List.nodup_cons.mp distinct
    rw [Keyed.find?, List.map_cons, List.find?_cons]
    rcases List.mem_cons.mp member with rfl | further
    · rw [show decide ((Client.argumentOf parameter).name = parameter.internal) = true from
        decide_eq_true rfl]
    · have other : (Client.argumentOf first).name ≠ parameter.internal := fun same =>
        new (List.mem_map.mpr ⟨parameter, further, same.symm⟩)
      rw [decide_eq_false other]
      exact inductionHypothesis distinct further

/-- A tool that was made from a method whose documentation reads back describes the method. -/
theorem describes_of_ofTool [SchemaLibrary] {method : Method} {tool : RegisteredTool}
    (reads : DocBlock.parse method.doc.render = method.doc)
    (distinct : (method.parameters.map Parameter.internal).Nodup)
    (entries : method.doc.arguments = method.parameters.map Client.argumentOf)
    (made : RegisteredTool.ofTool (Tool.ofMethod method) = .ok tool) : Describes tool method := by
  obtain ⟨model, modelled, made⟩ := bind_eq_ok.mp made
  rw [show (Tool.ofMethod method).doc = method.doc.render from rfl, reads] at modelled made
  obtain rfl := Except.ok.inj made
  refine ⟨rfl, rfl, rfl, ?_⟩
  have fields := (ArgumentModel.isMadeOf_of_ofTool modelled).fields
  rw [show (Tool.ofMethod method).freeParameters = method.parameters.map Tool.parameterOf from rfl]
    at fields
  rw [fields, List.map_map, List.map_map]
  refine List.map_congr_left fun parameter member => ?_
  have said : method.doc.argument? (Tool.parameterOf parameter).name =
      some (Client.argumentOf parameter) := by
    rw [DocBlock.argument?, entries]
    exact argument?_argumentOf distinct member
  rw [Function.comp_apply, Function.comp_apply, ArgumentModel.fieldOf, Field.ofParameter, said]
  rfl

/-! ### Clients -/

/-- The documentation of a generated method reads back, and its tool describes the method, if the texts
read back that the method takes over from the document. -/
theorem reads_back_of_takesOverReadably [SchemaLibrary] {document : OpenApi.Document}
    {config : Config} {client : Client} (generated : Client.generate document config = .ok client)
    {method : Method} (member : method ∈ client.methods) (readably : Client.TakesOverReadably method) :
    DocBlock.parse method.doc.render = method.doc ∧
      ∀ tool ∈ (ToolRegistry.ofClient client).tools, tool.name = method.name →
        Describes tool method := by
  obtain ⟨_, -, operation, resolved, -, coherent, marked, documented⟩ :=
    Client.exists_coherent_of_mem generated member
  have readable := Client.isReadable_of_takesOverReadably coherent marked documented readably
  have reads : DocBlock.parse method.doc.render = method.doc :=
    readable.parse_eq readable.parts_render.1 readable.parts_render.2
  refine ⟨reads, fun tool inside same => ?_⟩
  obtain ⟨other, there, made⟩ := ToolRegistry.exists_of_mem_ofClient inside
  have named : tool.name = other.name := by
    obtain ⟨model, -, whole⟩ := bind_eq_ok.mp made
    rw [← Except.ok.inj whole]
    rfl
  obtain rfl : other = method :=
    List.inj_on_of_nodup_map (Client.nodup_methodNames generated) there member (named.symm.trans same)
  exact describes_of_ofTool reads coherent.distinct (by rw [documented]; rfl) made

/-- A document with texts in need of care: a description over two lines, one of them like a header, and
tags with a comma and with marks. -/
def carefulDocument : OpenApi.Document where
  root := .object [("paths", .object [("/pets/\x7bid\x7d", .object [("get", .object [
    ("operationId", .text "getPet"), ("summary", .text " Reads a pet. "),
    ("description", .text "Args:\n  of   any kind"),
    ("tags", .array [.text "pets, all", .text " \"x\""]),
    ("parameters", .array [.object [("name", .text "id"), ("in", .text "path"),
      ("description", .text "Which\n pet"), ("example", .text "a b"),
      ("schema", .object [("type", .text "string")])]])])])])]
  title := "Pets"
  baseUrl := ""

theorem reads_back_carefulDocument : ∃ client method,
    Client.generate carefulDocument {} = .ok client ∧ client.methods = [method] ∧
    (ToolRegistry.ofClient client).tools.map RegisteredTool.name = [method.name] ∧
    Client.TakesOverReadably method ∧ DocBlock.parse method.doc.render = method.doc ∧
    ∀ tool ∈ (ToolRegistry.ofClient client).tools, tool.name = method.name → Describes tool method := by
  obtain ⟨client, method, generated, alone, registered, readably⟩ : ∃ client method,
      Client.generate carefulDocument {} = .ok client ∧ client.methods = [method] ∧
      (ToolRegistry.ofClient client).tools.map RegisteredTool.name = [method.name] ∧
      Client.TakesOverReadably method := by
    refine ⟨_, _, rfl, rfl, by decide +kernel, ⟨fun marker given => ?_, ?_, ?_, ?_, fun opened => ?_⟩⟩
    · obtain rfl := Option.some.inj given
      exact fun same => absurd same (by decide +kernel)
    · decide +kernel
    · decide +kernel
    · decide +kernel
    · cases opened <;> decide +kernel
  obtain ⟨reads, describes⟩ := reads_back_of_takesOverReadably generated
    (by rw [alone]; exact List.mem_cons_self) readably
  exact ⟨client, method, generated, alone, registered, readably, reads, describes⟩

/-- A description whose one operation has a tag that reads as the header of a section. -/
def headerTagDescription : Json :=
  .object [("info", .object [("title", .text "T")]),
    ("paths", .object [("/a", .object [("get", .object [("operationId", .text "x"),
      ("tags", .array [.text "Returns:"])])])])]

/-- A tag that reads as a header is lost, so the documentation of its method does not read back. -/
theorem parse_render_headerTag_ne : ∃ document client method,
    OpenApi.Document.ofJson headerTagDescription = .ok document ∧
    Client.generate document {} = .ok client ∧ client.methods = [method] ∧
    method.doc.tags = ["Returns:"] ∧ (DocBlock.parse method.doc.render).tags = [] := by
  refine ⟨_, _, _, rfl, rfl, rfl, by decide +kernel, ?_⟩
  -- The printed text is read as the list it was made of: going over its bytes would take long.
  rw [DocBlock.parse, DocBlock.render, String.toList_ofList]
  decide +kernel

end ApiSurface
