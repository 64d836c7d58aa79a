/-
This file proves what the arguments are that a tool gets once they are validated: one for each parameter
that a caller gives, in the order of the parameters, given or filled in. A parameter without a default is
required by the schema that is checked, so nothing is missing where a library for schemas refuses what
lacks a required member. Arguments that the tool does not know are gone before anything is checked, and
members are looked up by name, so neither they nor the order of the others make any difference where the
library asks for no order.
-/

import ApiSurface.Proofs.Tool.Acceptance

namespace ApiSurface

open Json (Members)

namespace ArgumentModel

variable {tool : Tool} {doc : DocBlock} {model : ArgumentModel} {arguments : Members}

/-! ### The order of arguments -/

/-- Reading texts changes no name, so the same arguments are known before and after. -/
theorem known_decodeArguments (model : ArgumentModel) (arguments : Members) :
    model.known (decodeArguments arguments) = decodeArguments (model.known arguments) :=
  List.filter_map

theorem nodup_keys_known (model : ArgumentModel) (distinct : arguments.keys.Nodup) :
    (model.known (decodeArguments arguments)).keys.Nodup := by
  have names : (decodeArguments arguments).keys = arguments.keys := List.map_map
  exact (names ▸ distinct).sublist (List.filter_sublist.map Prod.fst)

theorem complete_congr (model : ArgumentModel) {first second : Members}
    (same : ∀ name, first.get? name = second.get? name) :
    model.complete first = model.complete second := by
  unfold complete
  simp only [same]

/-- Whether a model accepts arguments, and what comes out, depends on which arguments it knows and not on
their order. -/
theorem IsMadeOf.toOption_validate_perm [library : SchemaLibrary] (isMadeOf : IsMadeOf tool doc model)
    (ignores : library.IgnoresOrder) (distinct : arguments.keys.Nodup) {others : Members}
    (same : (model.known others).Perm (model.known arguments)) :
    (model.validate others).toOption = (model.validate arguments).toOption := by
  have decoded : (model.known (decodeArguments arguments)).Perm
      (model.known (decodeArguments others)) := by
    rw [known_decodeArguments, known_decodeArguments]
    exact same.symm.map _
  have known := nodup_keys_known model distinct
  have checked := ignores _ _ _ _ isMadeOf.validator _ _ known decoded
  have complete := complete_congr model (Members.get?_perm known decoded)
  ext result
  rw [toOption_eq_some_iff, toOption_eq_some_iff, validate_eq_ok_iff, validate_eq_ok_iff, checked,
    complete]

/-! ### The arguments that a tool gets -/

/-- The value that a field gets: what is given for it, else its default. -/
def valueOf? (arguments : Members) (field : Field) : Option Json :=
  (arguments.get? field.name).orElse fun _ => field.default?

theorem keys_complete (full : ∀ field ∈ model.fields, (valueOf? arguments field).isSome = true) :
    (model.complete arguments).keys = model.fields.map Field.name := by
  rw [Members.keys, complete, List.map_filterMap, ← List.filterMap_eq_map]
  refine List.filterMap_congr fun field listed => ?_
  obtain ⟨value, found⟩ := Option.isSome_iff_exists.mp (full field listed)
  rw [valueOf?] at found
  rw [found]
  rfl

theorem get?_complete (distinct : (model.fields.map Field.name).Nodup)
    (full : ∀ field ∈ model.fields, (valueOf? arguments field).isSome = true) {field : Field}
    (listed : field ∈ model.fields) :
    (model.complete arguments).get? field.name = valueOf? arguments field := by
  obtain ⟨value, found⟩ := Option.isSome_iff_exists.mp (full field listed)
  have inside : (field.name, value) ∈ model.complete arguments :=
    List.mem_filterMap.mpr ⟨field, listed, Option.map_eq_some_iff.mpr ⟨value, found, rfl⟩⟩
  rw [found, Members.get?_eq_some_iff (keys_complete full ▸ distinct)]
  exact inside

/-- Arguments with which nothing is wrong have a value for each field, as one without a default is
required. -/
theorem IsMadeOf.full [library : SchemaLibrary] (isMadeOf : IsMadeOf tool doc model)
    (refuses : library.RefusesMissing) (none : model.validator (.object arguments) = []) :
    ∀ field ∈ model.fields, (valueOf? arguments field).isSome = true := by
  intro field listed
  rw [valueOf?]
  cases default : field.default? with
  | some value => cases arguments.get? field.name <;> rfl
  | none =>
    have required : field.isRequired = true := by
      rw [Field.isRequired, default]
      rfl
    have needed : field.name ∈ requiredNames model.fields :=
      List.mem_map_of_mem (List.mem_filter.mpr ⟨listed, required⟩)
    have given : field.name ∈ arguments.keys := by
      by_contra missing
      exact refuses _ _ _ _ isMadeOf.validator arguments field.name needed missing none
    obtain ⟨member, there, same⟩ := List.mem_map.mp given
    obtain ⟨value, found⟩ := Members.exists_get?_of_mem there
    rw [← same, found]
    rfl

/-- The arguments that a tool gets have the names of all its fields as their keys, in order. Under each
of them stands what was given, read where it was a text that holds an array or an object, or else the
default as it is. Whatever other arguments are given that the model does not know, and in whatever order,
they are accepted or not alike, and the same comes out. -/
theorem keys_get?_perm_of_validate [library : SchemaLibrary] (refuses : library.RefusesMissing)
    (ignores : library.IgnoresOrder) (made : ofTool tool doc = .ok model)
    (distinct : arguments.keys.Nodup) :
    (∀ checked, model.validate arguments = .ok checked →
      checked.keys = model.fields.map Field.name ∧
      model.fields.map Field.name = tool.freeParameters.map ToolParameter.name ∧
      ∀ field ∈ model.fields,
        (∃ value, arguments.get? field.name = some value ∧
          checked.get? field.name = some (decodeNested value)) ∨
        (arguments.get? field.name = none ∧
          ∃ default, field.default? = some default ∧ checked.get? field.name = some default)) ∧
    ∀ others, (model.known others).Perm (model.known arguments) →
      (model.validate others).toOption = (model.validate arguments).toOption := by
  have isMadeOf := isMadeOf_of_ofTool made
  refine ⟨fun checked accepted => ?_, fun others => isMadeOf.toOption_validate_perm ignores distinct⟩
  obtain ⟨none, rfl⟩ := validate_eq_ok_iff.mp accepted
  have full := isMadeOf.full refuses none
  refine ⟨keys_complete full, isMadeOf.names, fun field listed => ?_⟩
  have filled := full field listed
  rw [get?_complete isMadeOf.distinct full listed]
  rw [valueOf?, get?_known (field?_of_mem isMadeOf.distinct listed)] at filled ⊢
  cases given : arguments.get? field.name with
  | some value => exact .inl ⟨value, rfl, rfl⟩
  | none =>
    rw [given] at filled
    obtain ⟨default, found⟩ := Option.isSome_iff_exists.mp filled
    exact .inr ⟨rfl, default, found, found⟩

/-- A tool with a parameter of arrays, one of numbers, and one that is a text if it is not given. -/
def listTool : Tool :=
  { (default : Tool) with
    name := "f"
    parameters := [
      { name := "ids", schema? := some (.object [("type", .text "array")]) },
      { name := "limit", schema? := some (.object [("type", .text "integer")]) },
      { name := "note", default? := some (.text "[3]") }] }

/-- Arguments for two of its parameters. -/
def listArguments : Members :=
  [("limit", .number (.int 3)), ("ids", .text "[1,2]")]

/-- The same in another order, and one that the tool does not know. -/
def noisyArguments : Members :=
  [("ids", .text "[1,2]"), ("page", .text "[]"), ("limit", .number (.int 3))]

theorem keys_get?_perm_of_validate_listTool : ∃ model checked,
    (SchemaLibrary.bounded 0).RefusesMissing ∧ (SchemaLibrary.bounded 0).IgnoresOrder ∧
    @ofTool (.bounded 0) listTool .empty = .ok model ∧ listArguments.keys.Nodup ∧
    model.validate listArguments = .ok checked ∧
    checked.keys = model.fields.map Field.name ∧
    model.fields.map Field.name = ["ids", "limit", "note"] ∧
    (∀ field ∈ model.fields,
      (∃ value, listArguments.get? field.name = some value ∧
        checked.get? field.name = some (decodeNested value)) ∨
      (listArguments.get? field.name = none ∧
        ∃ default, field.default? = some default ∧ checked.get? field.name = some default)) ∧
    (model.known noisyArguments).Perm (model.known listArguments) ∧
    model.validate noisyArguments = .ok checked := by
  have computed : ((@ofTool (.bounded 0) listTool .empty).toOption.map fun model =>
      (["ids", "limit", "page"].map fun name => (model.field? name).isSome,
        (model.validate listArguments).toOption.isSome)) = some ([true, true, false], true) := by
    decide +kernel
  obtain ⟨model, built, parts⟩ := Option.map_eq_some_iff.mp computed
  obtain ⟨known, accepted⟩ := Prod.mk.inj parts
  simp only [List.map_cons, List.map_nil, List.cons.injEq, and_true] at known
  obtain ⟨ids, limit, page⟩ := known
  obtain ⟨checked, done⟩ := Option.isSome_iff_exists.mp accepted
  have made := eq_ok_of_toOption built
  have validated := eq_ok_of_toOption done
  have distinct : listArguments.keys.Nodup := by decide
  have same : (model.known noisyArguments).Perm (model.known listArguments) := by
    simp only [ArgumentModel.known, noisyArguments, listArguments, List.filter_cons, List.filter_nil,
      ids, limit, page]
    exact .swap _ _ _
  have standard := SchemaSemantics.isStandard_bounded 0
  have refuses := (SchemaLibrary.implements_bounded 0).refusesMissing standard
  have ignores := (SchemaLibrary.implements_bounded 0).ignoresOrder standard
  obtain ⟨filled, free⟩ :=
    @keys_get?_perm_of_validate _ _ _ _ (.bounded 0) refuses ignores made distinct
  obtain ⟨keys, names, values⟩ := filled checked validated
  exact ⟨model, checked, refuses, ignores, made, distinct, validated, keys, names, values, same,
    eq_ok_of_toOption ((free noisyArguments same).trans done)⟩

end ArgumentModel

end ApiSurface
