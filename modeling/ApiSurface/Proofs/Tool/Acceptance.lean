/-
This file proves how far a tool accepts what it advertises. Texts that hold arrays or objects are read
before arguments are checked, so what counts is whether the arguments follow the advertised schema then;
only where nothing is known about a type is the text itself what is advertised. The advertised schema and
the one that is checked are two documents, so a reference must not lead to where they differ; they share
all definitions. What schemas mean is left open, as long as that is standard and the library for schemas
implements it.
-/

import ApiSurface.Proofs.Schema.Bounded
import ApiSurface.Proofs.Tool.Field

namespace ApiSurface

open Json (Members)
open Schema (followWithin referencesOf violationsOf)

/-! ### Schemas of arguments -/

/-- Arguments follow a schema of arguments if those are there that must be given and each of them follows
the schema of its field. -/
theorem SchemaSemantics.IsStandard.arguments_iff {semantics : SchemaSemantics}
    (standard : semantics.IsStandard) {schema : Field → Json} {fields : List Field}
    {definitions : Members} (distinct : (fields.map Field.name).Nodup)
    (isSchema : semantics.IsSchema (ArgumentModel.objectSchema schema fields definitions))
    {document : Json} {arguments : Members} :
    semantics.Valid document (ArgumentModel.objectSchema schema fields definitions)
        (.object arguments) ↔
      (∀ field ∈ fields, ∀ value, arguments.get? field.name = some value →
        semantics.Valid document (schema field) value) ∧
      ∀ name ∈ ArgumentModel.requiredNames fields, name ∈ arguments.keys := by
  have keys : ((fields.map fun field => (field.name, schema field)).map Prod.fst).Nodup := by
    rwa [List.map_map]
  refine (standard.members document isSchema).trans (and_congr_left' ?_)
  rw [Members.ofList_of_nodup keys, List.forall_mem_map]

/-- The schemas of the fields are schemas. -/
theorem SchemaSemantics.IsStandard.isSchema_of_mem {semantics : SchemaSemantics}
    (standard : semantics.IsStandard) {schema : Field → Json} {fields : List Field}
    {definitions : Members} (distinct : (fields.map Field.name).Nodup)
    (isSchema : semantics.IsSchema (ArgumentModel.objectSchema schema fields definitions))
    {field : Field} (listed : field ∈ fields) : semantics.IsSchema (schema field) := by
  have keys : ((fields.map fun field => (field.name, schema field)).map Prod.fst).Nodup := by
    rwa [List.map_map]
  refine standard.property isSchema (field.name, schema field) ?_
  rw [Members.ofList_of_nodup keys]
  exact List.mem_map_of_mem listed

namespace ArgumentModel

/-! ### References -/

/-- All that a field refers to leads to the same in the schema that is checked as in the advertised one. -/
def LeadsAlike (semantics : SchemaSemantics) (model : ArgumentModel) (field : Field) : Prop :=
  semantics.LeadsAlike model.schema (objectSchema Field.validation model.fields model.definitions)
    field.schema

/-- A reference leads into the definitions of a schema of arguments. -/
def LeadsToDefinition (reference : String) : Prop :=
  ∃ names, Schema.stepsOf? reference = some (Field.definitionsKey :: names)

/-- The definitions are the same, whatever the schemas of the fields are. -/
theorem target?_objectSchema {reference : String} (leads : LeadsToDefinition reference)
    (schema other : Field → Json) (fields : List Field) (definitions : Members) :
    Schema.target? (objectSchema schema fields definitions) reference =
      Schema.target? (objectSchema other fields definitions) reference := by
  obtain ⟨names, steps⟩ := leads
  have start (given : Field → Json) :
      (objectSchema given fields definitions).step? Field.definitionsKey =
        (definitionMembers definitions).get? Field.definitionsKey := rfl
  rw [Schema.target?_eq, Schema.target?_eq, steps, Option.bind_some, Option.bind_some, Json.follow?,
    Json.follow?, start, start]

/-- A field that refers only to definitions leads alike. -/
theorem leadsAlike_of_leadsToDefinition {hops : Nat} {model : ArgumentModel} {field : Field}
    (leads : ∀ reference, (SchemaSemantics.bounded hops).Reaches model.schema field.schema reference →
      LeadsToDefinition reference) : model.LeadsAlike (.bounded hops) field :=
  fun reference reaches => congrArg (Option.map Schema.withoutAnnotations)
    (target?_objectSchema (leads reference reaches) _ _ _ _)

/-! ### Arguments -/

/-- The arguments in which texts are read that hold arrays or objects, unless nothing is known about the
type. -/
def decodeTyped (model : ArgumentModel) (arguments : Members) : Members :=
  arguments.map fun (name, value) =>
    (name, if (model.field? name).any Field.isUntyped then value else decodeNested value)

section

variable {model : ArgumentModel} {arguments : Members} {field : Field}

theorem field?_of_mem (distinct : (model.fields.map Field.name).Nodup) (member : field ∈ model.fields) :
    model.field? field.name = some field := by
  cases found : model.field? field.name with
  | none => exact absurd (beq_self_eq_true field.name) (List.find?_eq_none.mp found field member)
  | some other =>
    have same : other.name = field.name := by simpa using List.find?_some found
    rw [List.inj_on_of_nodup_map distinct (List.mem_of_find?_eq_some found) member same]

theorem get?_decodeTyped (found : model.field? field.name = some field) :
    (model.decodeTyped arguments).get? field.name =
      (arguments.get? field.name).map fun value =>
        if field.isUntyped then value else decodeNested value := by
  have changed : (model.decodeTyped arguments).get? field.name =
      (arguments.get? field.name).map fun value =>
        if (model.field? field.name).any Field.isUntyped then value else decodeNested value :=
    Keyed.lookup_map fun name value =>
      if (model.field? name).any Field.isUntyped then value else decodeNested value
  rw [changed, found]
  rfl

theorem get?_known (found : model.field? field.name = some field) :
    (model.known (decodeArguments arguments)).get? field.name =
      (arguments.get? field.name).map decodeNested := by
  have kept : (model.field? field.name).isSome = true := by
    rw [found]
    rfl
  have filtered : (model.known (decodeArguments arguments)).get? field.name =
      (decodeArguments arguments).get? field.name :=
    @Keyed.lookup_filter String _ Json _ _ (fun name => (model.field? name).isSome) kept
  exact filtered.trans (Keyed.lookup_map fun _ => decodeNested)

theorem mem_keys_known (found : model.field? field.name = some field)
    (inside : field.name ∈ (model.decodeTyped arguments).keys) :
    field.name ∈ (model.known (decodeArguments arguments)).keys := by
  obtain ⟨_, there, same⟩ := List.mem_map.mp inside
  obtain ⟨argument, given, rfl⟩ := List.mem_map.mp there
  have name : argument.1 = field.name := same
  have decoded : (argument.1, decodeNested argument.2) ∈ decodeArguments arguments :=
    List.mem_map_of_mem given
  refine List.mem_map.mpr ⟨_, List.mem_filter.mpr ⟨decoded, ?_⟩, name⟩
  show (model.field? argument.1).isSome = true
  rw [name, found]
  rfl

end

/-- Arguments that follow the advertised schema once the texts of typed parameters are read are
accepted, unless a reference means something else in what is checked: what comes out are the known ones,
with defaults for those that are not given. -/
theorem validate_of_follows [library : SchemaLibrary] {semantics : SchemaSemantics}
    (standard : semantics.IsStandard) (implements : library.Implements semantics) {tool : Tool}
    {doc : DocBlock} {model : ArgumentModel} (made : ofTool tool doc = .ok model)
    (alike : ∀ field ∈ model.fields, field.isUntyped = false → model.LeadsAlike semantics field)
    {arguments : Members}
    (follows : semantics.Follows model.schema (.object (model.decodeTyped arguments))) :
    model.validate arguments = .ok (model.complete (model.known (decodeArguments arguments))) := by
  have isMadeOf := isMadeOf_of_ofTool made
  obtain ⟨isSchema, decides⟩ := implements _ _ isMadeOf.validator
  obtain ⟨each, required⟩ := (standard.arguments_iff isMadeOf.distinct follows.1).mp follows.2
  refine validate_eq_ok_iff.mpr ⟨(decides _).mpr ?_, rfl⟩
  refine (standard.arguments_iff isMadeOf.distinct isSchema).mpr
    ⟨fun field listed value given => ?_, fun name needed => ?_⟩
  · have known := field?_of_mem isMadeOf.distinct listed
    have fieldSchema := standard.isSchema_of_mem isMadeOf.distinct isSchema listed
    rw [get?_known known] at given
    obtain ⟨argument, there, rfl⟩ := Option.map_eq_some_iff.mp given
    -- what is given for a field of known type is decoded alike for what is advertised
    have allowed : field.isUntyped = true ∨
        semantics.Valid model.schema field.schema (decodeNested argument) := by
      cases untyped : field.isUntyped with
      | true => exact .inl rfl
      | false =>
        refine .inr (each field listed _ ?_)
        rw [get?_decodeTyped known, there, untyped]
        rfl
    have leads := alike field listed
    obtain ⟨parameter, -, rfl⟩ := List.mem_map.mp (isMadeOf.fields ▸ listed)
    exact Field.valid_fieldOf standard fieldSchema leads allowed
  · obtain ⟨field, inside, rfl⟩ := List.mem_map.mp needed
    have known := field?_of_mem isMadeOf.distinct (List.mem_filter.mp inside).1
    exact mem_keys_known known (required field.name needed)

/-- A tool with a parameter of nested arrays, one about which nothing is known, and one that may be
null. -/
def nestedTool : Tool :=
  { (default : Tool) with
    name := "f"
    parameters := [
      { name := "a",
        schema? := some (.object [("$ref", .text "#/$defs/A"),
          ("$defs", .object [("A", .object [("type", .text "array"),
            ("items", .object [("$ref", .text "#/$defs/A")])])])]) },
      { name := "b" },
      { name := "c", schema? := some (.object [("type", .text "integer")]), default? := some .null }] }

/-- Arguments for two of its parameters. -/
def nestedArguments : Members :=
  [("a", .array [.array []]), ("b", .text "[1]")]

theorem validate_of_follows_nestedTool : ∃ model,
    (SchemaSemantics.bounded 8).IsStandard ∧ (SchemaLibrary.bounded 8).Implements (.bounded 8) ∧
    @ofTool (.bounded 8) nestedTool .empty = .ok model ∧
    (∀ field ∈ model.fields, field.isUntyped = false → model.LeadsAlike (.bounded 8) field) ∧
    (SchemaSemantics.bounded 8).Follows model.schema (.object (model.decodeTyped nestedArguments)) ∧
    model.validate nestedArguments =
      .ok (model.complete (model.known (decodeArguments nestedArguments))) := by
  have computed : ((@ofTool (.bounded 8) nestedTool .empty).toOption.map fun model =>
      (model.fields.flatMap fun field => referencesOf field.schema,
        (Schema.target? model.schema "#/$defs/A").elim [] referencesOf,
        (Schema.read? model.schema).isSome,
        (violationsOf (followWithin model.schema 8) model.schema
          (.object (model.decodeTyped nestedArguments))).isEmpty)) =
      some (["#/$defs/A"], ["#/$defs/A"], true, true) := by decide +kernel
  obtain ⟨model, built, parts⟩ := Option.map_eq_some_iff.mp computed
  obtain ⟨own, parts⟩ := Prod.mk.inj parts
  obtain ⟨further, parts⟩ := Prod.mk.inj parts
  obtain ⟨isSchema, none⟩ := Prod.mk.inj parts
  have made := eq_ok_of_toOption built
  have alike : ∀ field ∈ model.fields, field.isUntyped = false →
      model.LeadsAlike (.bounded 8) field := by
    intro field listed _
    refine leadsAlike_of_leadsToDefinition fun reference reaches => ?_
    have only : reference = "#/$defs/A" := by
      induction reaches with
      | own holds =>
        refine List.mem_singleton.mp (own ▸ ?_)
        exact List.mem_flatMap.mpr ⟨field, listed, holds⟩
      | @further reference other target _ leads holds inductionHypothesis =>
        have here : Schema.target? model.schema other = some target := leads
        rw [inductionHypothesis] at here
        rw [here] at further
        exact List.mem_singleton.mp (further ▸ holds)
    rw [only]
    exact ⟨["A"], by decide +kernel⟩
  have standard := SchemaSemantics.isStandard_bounded 8
  have implements := SchemaLibrary.implements_bounded 8
  have follows : (SchemaSemantics.bounded 8).Follows model.schema
      (.object (model.decodeTyped nestedArguments)) := ⟨isSchema, List.isEmpty_iff.mp none⟩
  exact ⟨model, standard, implements, made, alike, follows,
    @validate_of_follows (.bounded 8) _ standard implements _ _ _ made alike _ follows⟩

/-- A tool with one parameter that is a text. -/
def textTool : Tool :=
  { (default : Tool) with
    name := "f"
    parameters := [{ name := "a", schema? := some (.object [("type", .text "string")]) }] }

/-- A tool with a parameter that must not be like another one, about which nothing is known. -/
def negatedTool : Tool :=
  { (default : Tool) with
    name := "f"
    parameters := [
      { name := "a",
        schema? := some (.object [("not", .object [("$ref", .text "#/properties/b")])]) },
      { name := "b" }] }

/-- Why a model refuses arguments, if it does. -/
def refusal? (model : ArgumentModel) (arguments : Members) : Option ToolFault :=
  match model.validate arguments with
  | .ok _ => none
  | .error fault => some fault

theorem validate_eq_error {model : ArgumentModel} {arguments : Members} {fault : ToolFault}
    (refused : model.refusal? arguments = some fault) : model.validate arguments = .error fault := by
  unfold refusal? at refused
  split at refused
  · cases refused
  · next result => rw [result, Option.some.inj refused]

/-- A text that holds an array is advertised as a text and not accepted as one; and where a schema refers
to another parameter about which nothing is known, it does not mean the same in what is advertised and
in what is checked. -/
theorem exists_advertised_not_accepted : ∃ (library : SchemaLibrary) (semantics : SchemaSemantics),
    semantics.IsStandard ∧ library.Implements semantics ∧
    (∃ model, ofTool textTool .empty = .ok model ∧
      semantics.Follows model.schema (.object [("a", .text "[1]")]) ∧
      model.validate [("a", .text "[1]")] =
        .error (.invalidArguments "f" ["/a: [1] is not of type \"string\""])) ∧
    ∃ model, ofTool negatedTool .empty = .ok model ∧
      semantics.Follows model.schema (.object [("a", .number (.int 1)), ("b", .text "x")]) ∧
      model.validate [("a", .number (.int 1)), ("b", .text "x")] = .error (.invalidArguments "f"
        ["/a: \x7b\"$ref\":\"#/properties/b\"\x7d is not allowed for 1"]) := by
  refine ⟨.bounded 8, .bounded 8, SchemaSemantics.isStandard_bounded 8,
    SchemaLibrary.implements_bounded 8, ?_, ?_⟩
  · have computed : ((@ofTool (.bounded 8) textTool .empty).toOption.map fun model =>
        ((Schema.read? model.schema).isSome,
          (violationsOf (followWithin model.schema 8) model.schema
            (.object [("a", .text "[1]")])).isEmpty,
          model.refusal? [("a", .text "[1]")])) =
        some (true, true, some (.invalidArguments "f" ["/a: [1] is not of type \"string\""])) := by
      decide +kernel
    obtain ⟨model, built, parts⟩ := Option.map_eq_some_iff.mp computed
    obtain ⟨isSchema, parts⟩ := Prod.mk.inj parts
    obtain ⟨none, refused⟩ := Prod.mk.inj parts
    exact ⟨model, eq_ok_of_toOption built, ⟨isSchema, List.isEmpty_iff.mp none⟩,
      validate_eq_error refused⟩
  · have computed : ((@ofTool (.bounded 8) negatedTool .empty).toOption.map fun model =>
        ((Schema.read? model.schema).isSome,
          (violationsOf (followWithin model.schema 8) model.schema
            (.object [("a", .number (.int 1)), ("b", .text "x")])).isEmpty,
          model.refusal? [("a", .number (.int 1)), ("b", .text "x")])) =
        some (true, true, some (.invalidArguments "f"
          ["/a: \x7b\"$ref\":\"#/properties/b\"\x7d is not allowed for 1"])) := by
      decide +kernel
    obtain ⟨model, built, parts⟩ := Option.map_eq_some_iff.mp computed
    obtain ⟨isSchema, parts⟩ := Prod.mk.inj parts
    obtain ⟨none, refused⟩ := Prod.mk.inj parts
    exact ⟨model, eq_ok_of_toOption built, ⟨isSchema, List.isEmpty_iff.mp none⟩,
      validate_eq_error refused⟩

end ArgumentModel

end ApiSurface
