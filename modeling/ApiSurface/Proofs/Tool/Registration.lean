/-
This file proves what a registry keeps of the calls that register tools, whichever of them succeed. A
call first looks whether the name is taken, then makes the model, and only then adds the tool, so a call
that fails has not changed anything. The tools of a registry are therefore those of the calls that
succeeded, in the order of the calls. Their names are pairwise different, so the first tool of a name,
which is the one that is found, is the only one.
-/

import ApiSurface.Proofs.Tool.Exposure
import Mathlib.Data.List.Induction

namespace ApiSurface

open Json (Members)

/-! ### Tools that make sense -/

/-- A tool that can be made ready to be called. -/
structure Tool.MakesSense [SchemaLibrary] (tool : Tool) : Prop where
  /-- There is a parameter for each value that is bound. -/
  bound : tool.bound.length ≤ tool.parameters.length
  /-- The parameters that a caller gives have names that are for callers. -/
  exposed : ∀ parameter ∈ tool.freeParameters,
    ArgumentModel.isReservedName parameter.name = false
  /-- No two of them have the same name. -/
  distinct : (tool.freeParameters.map ToolParameter.name).Nodup
  /-- The schema that arguments are checked against compiles. -/
  compiles : ∃ validator, SchemaLibrary.checkFor? (ArgumentModel.objectSchema Field.validation
    (tool.freeParameters.map (ArgumentModel.fieldOf (DocBlock.parse tool.doc)))
    (ArgumentModel.definitionsOf (DocBlock.parse tool.doc) tool.freeParameters [])) = some validator

namespace ArgumentModel

theorem isReservedName_of_collectFields {doc : DocBlock} {parameters : List ToolParameter}
    {found collected : List Field × Members}
    (done : collectFields doc parameters found = .ok collected) :
    ∀ parameter ∈ parameters, isReservedName parameter.name = false := by
  fun_induction collectFields doc parameters found with
  | case1 => exact fun _ inside => absurd inside List.not_mem_nil
  | case2 => cases done
  | case3 => cases done
  | case4 parameter rest fields definitions free _ field added _ inductionHypothesis =>
    exact List.forall_mem_cons.mpr ⟨Bool.eq_false_iff.mpr free, inductionHypothesis done⟩

theorem exists_build_iff [SchemaLibrary] {tool : Tool} :
    (∃ model, build tool (DocBlock.parse tool.doc) = .ok model) ↔ tool.MakesSense := by
  unfold build
  split
  · next exceeded =>
    exact iff_of_false (fun ⟨_, built⟩ => by cases built) fun sense =>
      Nat.not_lt.mpr sense.bound exceeded
  · next within =>
    constructor
    · rintro ⟨model, built⟩
      obtain ⟨⟨fields, definitions⟩, collected, built⟩ := bind_eq_ok.mp built
      obtain ⟨whole, distinct⟩ := collectFields_eq_ok collected
      obtain ⟨rfl, rfl⟩ := Prod.mk.inj whole
      dsimp only at built
      split at built
      · next validator compiled =>
        have names := distinct List.nodup_nil
        rw [List.nil_append, List.map_map] at names
        exact ⟨Nat.not_lt.mp within, isReservedName_of_collectFields collected, names, validator,
          compiled⟩
      · cases built
    · rintro ⟨-, exposed, distinct, validator, compiled⟩
      have built : build tool (DocBlock.parse tool.doc) = _ :=
        build_of_free (Nat.not_lt.mp within) exposed distinct
      rw [compiled, build, if_neg within] at built
      exact ⟨_, built⟩

end ArgumentModel

namespace RegisteredTool

/-- A tool is made ready exactly if it makes sense; there is no other fault. -/
theorem exists_ofTool_iff [SchemaLibrary] {tool : Tool} :
    (∃ ready, ofTool tool = .ok ready) ↔ tool.MakesSense := by
  rw [← ArgumentModel.exists_build_iff]
  unfold ofTool ArgumentModel.ofTool
  dsimp only
  cases ArgumentModel.build tool (DocBlock.parse tool.doc) with
  | error reason => exact iff_of_false (fun ⟨_, made⟩ => by cases made) fun ⟨_, built⟩ => by cases built
  | ok model => exact iff_of_true ⟨_, rfl⟩ ⟨model, rfl⟩

end RegisteredTool

/-! ### Registering in place -/

namespace ToolRegistry

variable {registry : ToolRegistry} {tool : Tool}

section

variable [SchemaLibrary]

/-- Registers a tool in a registry that is changed in place, and answers what callers learn about the
tool. -/
def registering (tool : Tool) : StateM ToolRegistry (Except ToolFault (Option ToolDescriptor)) :=
  inPlace fun registry => (registry.register tool).map fun extended =>
    (extended.descriptor? tool.name, extended)

/-- A call that registers a tool adds it behind all others and tells about it, if its name is free and
the tool makes sense. Any other call changes nothing. -/
theorem run_registering_cases (registry : ToolRegistry) (tool : Tool) :
    (∃ ready, registry.find? tool.name = none ∧ RegisteredTool.ofTool tool = .ok ready ∧
      (registering tool).run registry =
        (.ok (some ready.descriptor), { registry with tools := registry.tools ++ [ready] })) ∨
    ∃ fault, ¬(tool.MakesSense ∧ registry.find? tool.name = none) ∧
      (registering tool).run registry = (.error fault, registry) := by
  rw [registering, run_inPlace]
  cases registered : registry.register tool with
  | ok extended =>
    obtain ⟨ready, made, found⟩ := find?_register registered
    obtain ⟨free, other, same, rfl⟩ := register_eq_ok registered
    obtain rfl := Except.ok.inj (made.symm.trans same)
    refine .inl ⟨ready, free, made, ?_⟩
    rw [Except.map, descriptor?, found]
    rfl
  | error fault =>
    refine .inr ⟨fault, fun ⟨sense, free⟩ => ?_, rfl⟩
    obtain ⟨ready, made⟩ := RegisteredTool.exists_ofTool_iff.mpr sense
    rw [register_eq free, made] at registered
    cases registered

/-! ### Tools that were made ready -/

/-- A tool was made ready. -/
def Readies (tool : Tool) (ready : RegisteredTool) : Prop := RegisteredTool.ofTool tool = .ok ready

theorem map_name_of_readies {tools : List Tool} {readied : List RegisteredTool}
    (made : List.Forall₂ Readies tools readied) :
    readied.map RegisteredTool.name = tools.map Tool.name := by
  induction made with
  | nil => rfl
  | cons first _ inductionHypothesis =>
    rw [List.map_cons, List.map_cons, inductionHypothesis, name_of_ofTool first]

/-- The tool that is found under a name was made from the first one of the name. -/
theorem exists_find?_of_readies {before after : List Tool} {readied : List RegisteredTool}
    (made : List.Forall₂ Readies (before ++ tool :: after) readied)
    (first : tool.name ∉ before.map Tool.name) :
    ∃ ready, Readies tool ready ∧ (readied.find? fun ready => ready.name == tool.name) = some ready := by
  induction before generalizing readied with
  | nil =>
    cases made with
    | cons here _ =>
      refine ⟨_, here, List.find?_cons_of_pos ?_⟩
      rw [name_of_ofTool here]
      exact beq_self_eq_true _
  | cons other before inductionHypothesis =>
    rw [List.map_cons, List.mem_cons, not_or] at first
    cases made with
    | cons here further =>
      obtain ⟨ready, readies, found⟩ := inductionHypothesis further first.2
      refine ⟨ready, readies, (List.find?_cons_of_neg ?_).trans found⟩
      rw [name_of_ofTool here]
      simpa using Ne.symm first.1

end

theorem find?_eq_none_iff {name : String} :
    registry.find? name = none ↔ name ∉ registry.tools.map RegisteredTool.name := by
  simp [find?]

/-! ### Calls one after the other -/

/-- The tools of the calls that succeeded, in the order of the calls. -/
def registered (tools : List Tool)
    (answers : List (Except ToolFault (Option ToolDescriptor))) : List Tool :=
  ((tools.zip answers).filter fun call => call.2.isOk).map Prod.fst

theorem registered_concat {tools : List Tool} {answers : List (Except ToolFault (Option ToolDescriptor))}
    (answered : answers.length = tools.length) (tool : Tool)
    (answer : Except ToolFault (Option ToolDescriptor)) :
    registered (tools ++ [tool]) (answers ++ [answer]) =
      registered tools answers ++ if answer.isOk then [tool] else [] := by
  rw [registered, List.zip_append answered.symm, List.filter_append, List.map_append]
  cases answer <;> rfl

/-- What calls that register tools, one after the other, come to: their answers, and the registry that
they leave. -/
structure KeepsRegistered [SchemaLibrary] (tools : List Tool)
    (answers : List (Except ToolFault (Option ToolDescriptor))) (registry : ToolRegistry) : Prop where
  /-- Every call is answered. -/
  answered : answers.length = tools.length
  /-- The tools are what was made of those that were registered, in the order of the calls. -/
  made : List.Forall₂ Readies (registered tools answers) registry.tools
  /-- Their names are pairwise different. -/
  distinct : (registry.tools.map RegisteredTool.name).Nodup
  /-- What is listed is what the successful calls told, in the order of the calls. -/
  listed : registry.descriptors.map some = answers.filterMap Except.toOption
  /-- A name leads to what was made of the first tool that was registered under it. -/
  known : ∀ before tool after, registered tools answers = before ++ tool :: after →
    tool.name ∉ before.map Tool.name →
      ∃ model, ArgumentModel.ofTool tool (DocBlock.parse tool.doc) = .ok model ∧
        (registry.find? tool.name).map RegisteredTool.model = some model ∧
        registry.descriptor? tool.name = some (.ofTool tool model (DocBlock.parse tool.doc))
  /-- A name under which no tool was registered leads nowhere. -/
  unknown : ∀ name, name ∉ (registered tools answers).map Tool.name → registry.find? name = none
  /-- The next call succeeds exactly if the tool makes sense and none was registered under its name. -/
  success : ∀ tool, (∃ descriptor, ((registering tool).run registry).1 = .ok descriptor) ↔
    tool.MakesSense ∧ tool.name ∉ (registered tools answers).map Tool.name
  /-- If it fails, it changes nothing. -/
  failure : ∀ tool fault after, (registering tool).run registry = (.error fault, after) →
    after = registry

/-- The tools of a registry were made, in the order of the calls, from those that were registered, and
their names are pairwise different. -/
theorem exists_readies [SchemaLibrary] (context : Members) (tools : List Tool) :
    ∃ answers registry, (tools.mapM registering).run ⟨[], context⟩ = (answers, registry) ∧
      answers.length = tools.length ∧
      List.Forall₂ Readies (registered tools answers) registry.tools ∧
      (registry.tools.map RegisteredTool.name).Nodup ∧
      registry.descriptors.map some = answers.filterMap Except.toOption := by
  induction tools using List.reverseRecOn with
  | nil => exact ⟨[], ⟨[], context⟩, rfl, rfl, .nil, List.nodup_nil, rfl⟩
  | append_singleton tools last inductionHypothesis =>
    obtain ⟨answers, registry, earlier, answered, made, distinct, listed⟩ := inductionHypothesis
    refine ⟨_, _, run_mapM_concat registering tools last _, by simp [earlier, answered], ?_⟩
    rw [earlier]
    rcases run_registering_cases registry last with ⟨ready, free, done, run⟩ | ⟨fault, -, run⟩ <;>
      rw [run, registered_concat answered]
    · refine ⟨List.rel_append made (.cons done .nil), ?_, ?_⟩
      · rw [find?_eq_none_iff, ← name_of_ofTool done] at free
        rw [List.map_append]
        refine distinct.append (List.nodup_singleton _) ?_
        rw [List.map_singleton, List.disjoint_singleton]
        exact free
      · rw [descriptors] at listed ⊢
        rw [List.map_append, List.map_append, List.filterMap_append, listed]
        rfl
    · rw [List.filterMap_append]
      exact ⟨(List.append_nil _).symm ▸ made, distinct, listed.trans (List.append_nil _).symm⟩

/-- A registry keeps what calls register, in whatever order they succeed and fail. -/
theorem exists_keepsRegistered [SchemaLibrary] (context : Members) (tools : List Tool) :
    ∃ answers registry, (tools.mapM registering).run ⟨[], context⟩ = (answers, registry) ∧
      KeepsRegistered tools answers registry := by
  obtain ⟨answers, registry, run, answered, made, distinct, listed⟩ := exists_readies context tools
  have free (name : String) :
      registry.find? name = none ↔ name ∉ (registered tools answers).map Tool.name := by
    rw [find?_eq_none_iff, map_name_of_readies made]
  refine ⟨answers, registry, run, {
    answered, made, distinct, listed
    known := fun before tool after whole first => ?_
    unknown := fun name absent => (free name).mpr absent
    success := fun tool => ?_
    failure := fun tool fault after failed => ?_ }⟩
  · obtain ⟨ready, readies, found⟩ := exists_find?_of_readies (whole ▸ made) first
    obtain ⟨model, modelled, same⟩ := bind_eq_ok.mp readies
    obtain rfl := Except.ok.inj same
    have here : registry.find? tool.name = some _ := found
    rw [descriptor?, here]
    exact ⟨model, modelled, rfl, rfl⟩
  · rw [← free]
    rcases run_registering_cases registry tool with ⟨ready, unused, done, run⟩ | ⟨fault, refused, run⟩ <;>
      rw [run]
    · exact iff_of_true ⟨_, rfl⟩ ⟨RegisteredTool.exists_ofTool_iff.mp ⟨ready, done⟩, unused⟩
    · exact iff_of_false (fun ⟨_, done⟩ => by cases done) refused
  · rcases run_registering_cases registry tool with ⟨ready, -, -, run⟩ | ⟨other, -, run⟩ <;>
      rw [run] at failed
    · cases (Prod.mk.inj failed).1
    · exact (Prod.mk.inj failed).2.symm

/-- Calls that register `f`, then `f` once more, and then `g`, which fails in every way before it
succeeds. -/
def stubbornCalls : List Tool :=
  let tool (name : String) (parameters : List ToolParameter) (bound : List Json) : Tool :=
    { (default : Tool) with name, parameters, bound }
  [tool "f" [] [], tool "f" [{ name := "a" }] [], tool "g" [] [.null],
    tool "g" [{ name := "_a" }] [], tool "g" [{ name := "a" }, { name := "a" }] [],
    tool "g" [{ name := "a", schema? := some (.object [("type", .text "nonsense")]) }] [],
    tool "g" [{ name := "a" }] []]

example : ((stubbornCalls.mapM registering).run empty).1.map Except.isOk =
    [true, false, false, false, false, false, true] := by decide +kernel

end ToolRegistry

end ApiSurface
