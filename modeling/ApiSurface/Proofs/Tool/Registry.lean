/-
This file proves that a caller cannot override what a registry pins. A registry only grows, so a tool
that was registered stays the tool of its name. A call puts the checked arguments over the bound values,
and what the registry holds for every tool under both; the checked arguments have the names of the
parameters that callers give, and no others. So a bound value can only give way to a parameter that is
declared behind its own under the same name. The library for schemas only decides which arguments are
accepted.
-/

import ApiSurface.Proofs.Json.Members
import ApiSurface.Proofs.Tool.Model
import ApiSurface.Schema.Validator
import ApiSurface.Tool.Operation

namespace ApiSurface

open Json (Members)

/-! ### Bound parameters -/

namespace Tool

variable {tool : Tool} {before after : List ToolParameter} {parameter : ToolParameter} {value : Json}

/-- Values are bound to names of parameters. -/
theorem names_zipWith_subset (parameters : List ToolParameter) (values : List Json) :
    (parameters.zipWith (fun parameter value => (parameter.name, value)) values).map Prod.fst ⊆
      parameters.map ToolParameter.name := by
  intro name member
  rw [← List.map_uncurry_zip_eq_zipWith] at member
  obtain ⟨pair, paired, rfl⟩ := List.mem_map.mp member
  obtain ⟨⟨parameter, value⟩, zipped, rfl⟩ := List.mem_map.mp paired
  exact List.mem_map_of_mem (List.of_mem_zip zipped).1

/-- A value is bound to the parameter in its place; what is bound behind it has names of later
parameters. -/
theorem exists_boundArguments_eq (declared : tool.parameters = before ++ parameter :: after)
    (bound : tool.bound[before.length]? = some value) :
    ∃ early late, tool.boundArguments = early ++ (parameter.name, value) :: late ∧
      late.map Prod.fst ⊆ after.map ToolParameter.name := by
  obtain ⟨inside, there⟩ := List.getElem?_eq_some_iff.mp bound
  have split : tool.bound =
      tool.bound.take before.length ++ value :: tool.bound.drop (before.length + 1) := by
    rw [← there, ← List.drop_eq_getElem_cons, List.take_append_drop]
  have lengths : before.length = (tool.bound.take before.length).length := by
    rw [List.length_take_of_le (Nat.le_of_lt inside)]
  let named (parameter : ToolParameter) (value : Json) : String × Json := (parameter.name, value)
  refine ⟨before.zipWith named (tool.bound.take before.length),
    after.zipWith named (tool.bound.drop (before.length + 1)), ?_, names_zipWith_subset _ _⟩
  unfold boundArguments
  conv_lhs => rw [declared, split]
  exact List.zipWith_append lengths

/-- A parameter with a bound value is not among those that callers give, unless one behind it has its
name. -/
theorem notMem_freeParameters (declared : tool.parameters = before ++ parameter :: after)
    (bound : tool.bound[before.length]? = some value)
    (last : parameter.name ∉ after.map ToolParameter.name) :
    parameter.name ∉ tool.freeParameters.map ToolParameter.name := by
  obtain ⟨inside, -⟩ := List.getElem?_eq_some_iff.mp bound
  obtain ⟨further, count⟩ : ∃ further, tool.bound.length = before.length + (further + 1) :=
    ⟨tool.bound.length - before.length - 1, by omega⟩
  have free : tool.freeParameters = after.drop further := by
    rw [freeParameters, declared, count, ← List.drop_drop, List.drop_left, List.drop_succ_cons]
  rw [free]
  exact fun member => last (List.map_subset _ (List.drop_subset further after) member)

end Tool

/-! ### Registries -/

namespace ToolRegistry

/-- A registry that another one grows into: tools and arguments for every tool are added. -/
inductive Extends [SchemaLibrary] (start : ToolRegistry) : ToolRegistry → Prop
  /-- Nothing is added. -/
  | refl : Extends start start
  /-- A tool is added. -/
  | register {registry extended : ToolRegistry} {tool : Tool} (earlier : Extends start registry)
    (done : registry.register tool = .ok extended) : Extends start extended
  /-- An argument for every tool is added. -/
  | withContext {registry : ToolRegistry} (earlier : Extends start registry) (key : String)
    (value : Json) : Extends start (registry.withContext key value)

variable {registry extended : ToolRegistry} {tool : Tool}

section

variable [SchemaLibrary]

theorem name_of_ofTool {ready : RegisteredTool} (made : RegisteredTool.ofTool tool = .ok ready) :
    ready.name = tool.name := by
  obtain ⟨model, -, whole⟩ := bind_eq_ok.mp made
  rw [← Except.ok.inj whole]
  rfl

theorem register_eq_ok (done : registry.register tool = .ok extended) :
    registry.find? tool.name = none ∧ ∃ ready, RegisteredTool.ofTool tool = .ok ready ∧
      extended = { registry with tools := registry.tools ++ [ready] } := by
  unfold register at done
  split at done
  · cases done
  · next free =>
    obtain ⟨ready, made, done⟩ := bind_eq_ok.mp done
    exact ⟨by simpa using free, ready, made, (Except.ok.inj done).symm⟩

theorem find?_register (done : registry.register tool = .ok extended) :
    ∃ ready, RegisteredTool.ofTool tool = .ok ready ∧ extended.find? tool.name = some ready := by
  obtain ⟨free, ready, made, rfl⟩ := register_eq_ok done
  refine ⟨ready, made, ?_⟩
  rw [find?] at free ⊢
  rw [List.find?_append, free]
  simp [name_of_ofTool made]

theorem find?_register_of_found {name : String} {known : RegisteredTool}
    (found : registry.find? name = some known) (done : registry.register tool = .ok extended) :
    extended.find? name = some known := by
  obtain ⟨-, ready, -, rfl⟩ := register_eq_ok done
  rw [find?] at found ⊢
  rw [List.find?_append, found, Option.some_or]

/-- The tool of a name stays the same while a registry grows. -/
theorem Extends.find? {start : ToolRegistry} (growth : start.Extends registry) {name : String}
    {known : RegisteredTool} (found : start.find? name = some known) :
    registry.find? name = some known := by
  induction growth with
  | refl => exact found
  | register _ done inductionHypothesis => exact find?_register_of_found inductionHypothesis done
  | withContext _ key value inductionHypothesis => exact inductionHypothesis

/-- Every tool of a registry that grew out of the empty one was registered on the way. -/
theorem Extends.exists_register (growth : empty.Extends registry) {known : RegisteredTool}
    (member : known ∈ registry.tools) :
    ∃ (start registered : ToolRegistry) (tool : Tool), start.register tool = .ok registered ∧
      registered.Extends registry ∧ RegisteredTool.ofTool tool = .ok known := by
  induction growth with
  | refl => exact absurd member List.not_mem_nil
  | @register registry extended tool _ done inductionHypothesis =>
    obtain ⟨-, ready, made, whole⟩ := register_eq_ok done
    rw [whole] at member
    rcases List.mem_append.mp member with before | new
    · obtain ⟨start, registered, other, first, growth, same⟩ := inductionHypothesis before
      exact ⟨start, registered, other, first, growth.register done, same⟩
    · rw [List.mem_singleton.mp new]
      exact ⟨registry, extended, tool, done, .refl, made⟩
  | withContext _ key value inductionHypothesis =>
    obtain ⟨start, registered, tool, first, growth, same⟩ := inductionHypothesis member
    exact ⟨start, registered, tool, first, growth.withContext key value, same⟩

theorem Extends.registerOrSkip {start : ToolRegistry} (growth : start.Extends registry) (tool : Tool) :
    start.Extends (registry.registerOrSkip tool) := by
  unfold ToolRegistry.registerOrSkip
  split
  · next done => exact growth.register done
  · exact growth

theorem mem_tools_registerOrSkip {known : RegisteredTool}
    (member : known ∈ (registry.registerOrSkip tool).tools) :
    known ∈ registry.tools ∨ RegisteredTool.ofTool tool = .ok known := by
  unfold ToolRegistry.registerOrSkip at member
  split at member
  · next extended done =>
    obtain ⟨-, ready, made, rfl⟩ := register_eq_ok done
    rcases List.mem_append.mp member with before | new
    · exact .inl before
    · rw [List.mem_singleton.mp new]
      exact .inr made
  · exact .inl member

/-- The registry of a client grew out of the empty one. -/
theorem extends_ofClient (client : Client) : empty.Extends (ofClient client) :=
  List.foldlRecOn _ _ Extends.refl fun _ growth tool _ => growth.registerOrSkip tool

end

/-! ### Calls -/

/-- A tool gets the checked argument of a name, or else the bound value, or else what is there for every
tool. -/
theorem get?_assemble (context bound checked : Members) (key : String) :
    (assemble context bound checked).get? key =
      ((Members.get? checked.reverse key).or (bound.get? key)).or (context.get? key) := by
  rw [assemble, Members.get?_foldl_insertNew, Members.get?_insertAll]

theorem prepare_eq_ok {name : String} {known reached : RegisteredTool} {arguments : Json}
    {members : Members} (found : registry.find? name = some known)
    (prepared : registry.prepare name arguments = .ok (reached, members)) :
    reached = known ∧ ∃ given checked, argumentsOf name arguments = .ok given ∧
      known.model.validate given = .ok checked ∧
      members = assemble registry.context known.bound checked := by
  rw [prepare, found] at prepared
  obtain ⟨given, taken, prepared⟩ := bind_eq_ok.mp prepared
  obtain ⟨checked, validated, prepared⟩ := bind_eq_ok.mp prepared
  obtain ⟨rfl, rfl⟩ := Prod.mk.inj (Except.ok.inj prepared)
  exact ⟨rfl, given, checked, taken, validated, rfl⟩

/-- What a tool gets holds the values that a registry pins. -/
structure Pins (registry : ToolRegistry) (tool : Tool) (members : Members) : Prop where
  /-- A bound parameter has its value if no parameter behind it has its name. -/
  bound : ∀ before parameter after value, tool.parameters = before ++ parameter :: after →
    tool.bound[before.length]? = some value → parameter.name ∉ after.map ToolParameter.name →
    members.get? parameter.name = some value
  /-- What is there for every tool is there under each key that is not the name of a parameter. -/
  context : ∀ key value, registry.context.get? key = some value →
    key ∉ tool.parameters.map ToolParameter.name → members.get? key = some value

section

variable [SchemaLibrary]

theorem exists_assemble {start registered : ToolRegistry} (done : start.register tool = .ok registered)
    (growth : registered.Extends registry) {arguments : Json} {reached : RegisteredTool}
    {members : Members} (prepared : registry.prepare tool.name arguments = .ok (reached, members)) :
    ∃ model given checked, ArgumentModel.ofTool tool (DocBlock.parse tool.doc) = .ok model ∧
      reached.handler = tool.handler ∧ model.validate given = .ok checked ∧
      members = assemble registry.context (Members.ofList tool.boundArguments) checked := by
  obtain ⟨ready, made, found⟩ := find?_register done
  obtain ⟨rfl, given, checked, -, validated, rfl⟩ := prepare_eq_ok (growth.find? found) prepared
  obtain ⟨model, modelled, made⟩ := bind_eq_ok.mp made
  obtain rfl := Except.ok.inj made
  exact ⟨model, given, checked, modelled, rfl, validated, rfl⟩

theorem call_eq_handler {start registered : ToolRegistry} (done : start.register tool = .ok registered)
    (growth : registered.Extends registry) {arguments : Json} {reached : RegisteredTool}
    {members : Members} (prepared : registry.prepare tool.name arguments = .ok (reached, members)) :
    registry.call tool.name arguments = tool.handler members := by
  obtain ⟨_, _, _, -, handler, -, -⟩ := exists_assemble done growth prepared
  rw [call, prepared, ← handler]

/-- Whenever a call of a registered tool gets to its handler, the handler gets what the registry pins,
whatever the caller says. -/
theorem call_pins {start registered : ToolRegistry} (done : start.register tool = .ok registered)
    (growth : registered.Extends registry) {arguments : Json} {reached : RegisteredTool}
    {members : Members} (prepared : registry.prepare tool.name arguments = .ok (reached, members)) :
    registry.call tool.name arguments = tool.handler members ∧ registry.Pins tool members := by
  refine ⟨call_eq_handler done growth prepared, ?_⟩
  obtain ⟨model, given, checked, modelled, -, validated, rfl⟩ := exists_assemble done growth prepared
  -- a checked argument has the name of a parameter that callers give
  have unchecked (key : String) (other : key ∉ tool.freeParameters.map ToolParameter.name) :
      Members.get? checked.reverse key = none := by
    refine Members.get?_eq_none_of_notMem fun known => other ?_
    obtain ⟨-, rfl⟩ := ArgumentModel.validate_eq_ok_iff.mp validated
    rw [← (ArgumentModel.isMadeOf_of_ofTool modelled).names]
    exact ArgumentModel.keys_complete_subset model _ (by simpa [Members.keys] using known)
  have boundValue (key : String) :
      (Members.ofList tool.boundArguments).get? key = Members.get? tool.boundArguments.reverse key := by
    rw [Members.ofList, Members.get?_insertAll, Members.get?_nil, Option.or_none]
  constructor
  · intro before parameter after value declared bound last
    obtain ⟨early, late, whole, names⟩ := Tool.exists_boundArguments_eq declared bound
    have behind : Members.get? late.reverse parameter.name = none := by
      refine Members.get?_eq_none_of_notMem fun known => last (names ?_)
      simpa [Members.keys] using known
    rw [get?_assemble, unchecked _ (Tool.notMem_freeParameters declared bound last), boundValue, whole,
      List.reverse_append, List.reverse_cons, Members.get?_append, Members.get?_append, behind]
    simp
  · intro key value held undeclared
    have unbound : Members.get? tool.boundArguments.reverse key = none := by
      refine Members.get?_eq_none_of_notMem fun known => undeclared ?_
      rw [Members.keys, List.map_reverse, List.mem_reverse] at known
      exact Tool.names_zipWith_subset _ _ known
    have free : tool.freeParameters.map ToolParameter.name ⊆ tool.parameters.map ToolParameter.name :=
      List.map_subset _ (List.drop_subset _ _)
    rw [get?_assemble, unchecked key fun member => undeclared (free member), boundValue, unbound, held]
    rfl

end

/-- A tool with a bound parameter and one that callers give. -/
def greetingTool : Tool :=
  { (default : Tool) with
    name := "greet"
    parameters := [{ name := "tenant" }, { name := "name" }]
    bound := [.text "acme"] }

/-- A registry that holds a language for every tool. -/
def languageRegistry : ToolRegistry := empty.withContext "language" (.text "en")

/-- Arguments that name everything there is. -/
def insistentArguments : Json :=
  .object [("tenant", .text "other"), ("name", .text "Ada"), ("language", .text "fr")]

/-- What can be computed from what a tool gets in a call after it was registered. -/
theorem exists_of_computed {Result : Type} {name : String} {arguments : Json}
    (compute : Members → Result) {result : Result}
    (computed : ((registry.register tool).toOption.bind fun registered =>
      (registered.prepare name arguments).toOption.map fun prepared => compute prepared.2) =
        some result) :
    ∃ registered reached members, registry.register tool = .ok registered ∧
      registered.prepare name arguments = .ok (reached, members) ∧ compute members = result := by
  obtain ⟨registered, done, further⟩ := Option.bind_eq_some_iff.mp computed
  obtain ⟨⟨reached, members⟩, prepared, same⟩ := Option.map_eq_some_iff.mp further
  exact ⟨registered, reached, members, eq_ok_of_toOption done, eq_ok_of_toOption prepared, same⟩

theorem call_pins_greetingTool : ∃ registered reached members,
    languageRegistry.register greetingTool = .ok registered ∧ registered.Extends registered ∧
    registered.prepare "greet" insistentArguments = .ok (reached, members) ∧
    registered.call "greet" insistentArguments = greetingTool.handler members ∧
    registered.Pins greetingTool members := by
  have computed : ((languageRegistry.register greetingTool).toOption.bind fun registered =>
      (registered.prepare "greet" insistentArguments).toOption.map fun _ => ()) = some () := by
    decide +kernel
  obtain ⟨registered, reached, members, done, prepared, -⟩ :=
    exists_of_computed (fun _ => ()) computed
  exact ⟨registered, reached, members, done, .refl, prepared, call_pins done .refl prepared⟩

/-- A tool with a bound parameter whose name is declared once more. -/
def doubledTool : Tool :=
  { (default : Tool) with
    name := "f"
    parameters := [{ name := "a" }, { name := "a" }]
    bound := [.text "pinned"] }

/-- A caller overrides a bound parameter whose name is declared once more. -/
theorem exists_bound_overridden : ∃ registered reached members,
    empty.register doubledTool = .ok registered ∧
    registered.prepare "f" (.object [("a", .text "mine")]) = .ok (reached, members) ∧
    registered.call "f" (.object [("a", .text "mine")]) = doubledTool.handler members ∧
    doubledTool.boundArguments = [("a", .text "pinned")] ∧
    Field.textOf? members "a" = some "mine" := by
  have computed : ((empty.register doubledTool).toOption.bind fun registered =>
      (registered.prepare "f" (.object [("a", .text "mine")])).toOption.map fun prepared =>
        Field.textOf? prepared.2 "a") = some (some "mine") := by decide +kernel
  obtain ⟨registered, reached, members, done, prepared, held⟩ :=
    exists_of_computed (Field.textOf? · "a") computed
  exact ⟨registered, reached, members, done, prepared, call_eq_handler done .refl prepared, rfl, held⟩

end ToolRegistry

end ApiSurface
