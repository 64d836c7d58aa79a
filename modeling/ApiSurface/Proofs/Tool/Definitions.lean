/-
This file proves what a reference to a definition denotes in the schemas of an argument model. The
definitions of all parameters are put into one table, the later ones over the earlier ones, so a name
denotes what the last parameter declares for it. A parameter therefore keeps a definition of its own
exactly as long as no later one declares another one under its name. The schema of a parameter that is
split into one of two takes its definitions along, and they reach the table no more.
-/

import ApiSurface.Proofs.Json.Distinct
import ApiSurface.Proofs.OpenApi.Dialect
import ApiSurface.Proofs.Tool.Acceptance

namespace ApiSurface

open Json (Members)
open ApiSurface.Field (definitionsKey)

/-! ### Declared definitions -/

namespace ToolParameter

/-- The members of the schema that a parameter declares. -/
def declared (parameter : ToolParameter) : Members :=
  (parameter.schema?.bind Json.asObject?).getD []

/-- The definition that a parameter declares for a name. -/
def definition? (parameter : ToolParameter) (name : String) : Option Json :=
  (parameter.declared.get? definitionsKey).bind fun table => table.get? name

theorem hasDistinctKeys_declared {parameter : ToolParameter}
    (distinct : ∀ schema ∈ parameter.schema?, schema.HasDistinctKeys) :
    (Json.object parameter.declared).HasDistinctKeys := by
  unfold declared
  cases written : parameter.schema? with
  | none => exact Json.hasDistinctKeys_nothing
  | some schema => exact (distinct schema written).members

end ToolParameter

namespace OpenApi

theorem isSplit_normalizeMembers_iff {members : Members} :
    IsSplit (normalizeMembers members) ↔ IsSplit members := by
  have same (keyword : String) (plain : normalizeUnder keyword = id) :
      Members.get? (normalizeMembers members) keyword = members.get? keyword := by
    rw [get?_normalizeMembers, plain, Option.map_id_fun, id]
  have nullable := same "nullable" rfl
  have type := same "type" rfl
  constructor
  · rintro ⟨flagged, untyped⟩
    exact ⟨nullable ▸ flagged, by rwa [namesTypes, type] at untyped⟩
  · rintro ⟨flagged, untyped⟩
    exact ⟨nullable.symm ▸ flagged, by rwa [namesTypes, type]⟩

end OpenApi

namespace Field

/-- The definitions that a parameter brings along. -/
def hoisted (doc : DocBlock) (parameter : ToolParameter) : Members := (ofParameter parameter doc).2

theorem hoisted_eq (doc : DocBlock) (parameter : ToolParameter) :
    hoisted doc parameter =
      ((Members.get? (OpenApi.withoutFlags (OpenApi.normalizeMembers parameter.declared))
        definitionsKey).bind Json.asObject?).getD [] := by
  have undeclared (none : declaredSchema? parameter = none) : hoisted doc parameter = [] := by
    rw [hoisted, ofParameter]
    dsimp only
    rw [basisOf, none]
    rfl
  unfold ToolParameter.declared
  cases written : parameter.schema? with
  | none => exact undeclared (by rw [declaredSchema?, written]; rfl)
  | some schema =>
    cases schema with
    | object members =>
      cases members with
      | nil => exact undeclared (by rw [declaredSchema?, written]; rfl)
      | cons first rest =>
        have declared : declaredSchema? parameter = some (.object (first :: rest)) := by
          rw [declaredSchema?, written]
          rfl
        rw [hoisted, ofParameter]
        dsimp only
        rw [basisOf, declared]
        rfl
    | _ => exact undeclared (by rw [declaredSchema?, written]; rfl)

variable {parameter : ToolParameter}

/-- The normalised definitions of a parameter are brought along, unless its schema is split. -/
theorem get?_hoisted (distinct : ∀ schema ∈ parameter.schema?, schema.HasDistinctKeys)
    (doc : DocBlock) (name : String) :
    (¬ OpenApi.IsSplit parameter.declared ∧
        (hoisted doc parameter).get? name = (parameter.definition? name).map OpenApi.normalize) ∨
      (OpenApi.IsSplit parameter.declared ∧ (hoisted doc parameter).get? name = none) := by
  have keys := (ToolParameter.hasDistinctKeys_declared distinct).nodup_keys
  rw [← OpenApi.keys_normalizeMembers] at keys
  rw [hoisted_eq, ← OpenApi.isSplit_normalizeMembers_iff]
  refine (OpenApi.get?_withoutFlags keys definitionsKey (by decide) (by decide)).imp ?_ ?_
  · rintro ⟨whole, same⟩
    refine ⟨whole, ?_⟩
    rw [same, OpenApi.get?_normalizeMembers, ToolParameter.definition?]
    cases parameter.declared.get? definitionsKey with
    | none => rfl
    | some table =>
      cases table with
      | object entries => exact OpenApi.get?_normalizeTable entries name
      | _ => rfl
  · rintro ⟨split, gone⟩
    refine ⟨split, ?_⟩
    rw [gone]
    rfl

theorem nodup_keys_hoisted (distinct : ∀ schema ∈ parameter.schema?, schema.HasDistinctKeys)
    (doc : DocBlock) : (hoisted doc parameter).keys.Nodup := by
  have whole := ToolParameter.hasDistinctKeys_declared distinct
  have keys := whole.nodup_keys
  rw [← OpenApi.keys_normalizeMembers] at keys
  rw [hoisted_eq]
  rcases OpenApi.get?_withoutFlags keys definitionsKey (by decide) (by decide) with
    ⟨-, same⟩ | ⟨-, gone⟩
  · rw [same, OpenApi.get?_normalizeMembers]
    cases found : parameter.declared.get? definitionsKey with
    | none => exact List.nodup_nil
    | some table =>
      cases table with
      | object entries =>
        have inner := (whole.of_mem (Members.mem_of_get? found)).nodup_keys
        rw [← OpenApi.keys_normalizeTable] at inner
        exact inner
      | _ => exact List.nodup_nil
  · rw [gone]
    exact List.nodup_nil

end Field

/-! ### The table of definitions -/

namespace ArgumentModel

/-- A name denotes what the last parameter brings along for it. -/
theorem get?_definitionsOf (doc : DocBlock) {parameters : List ToolParameter}
    (distinct : ∀ parameter ∈ parameters, (Field.hoisted doc parameter).keys.Nodup)
    (found : Members) (name : String) :
    (definitionsOf doc parameters found).get? name =
      (parameters.reverse.findSome? fun parameter => (Field.hoisted doc parameter).get? name).or
        (found.get? name) := by
  induction parameters generalizing found with
  | nil => rfl
  | cons first rest inductionHypothesis =>
    rw [List.forall_mem_cons] at distinct
    show (definitionsOf doc rest (found.insertAll (Field.hoisted doc first))).get? name = _
    rw [inductionHypothesis distinct.2, Members.get?_insertAll, Members.get?_reverse distinct.1,
      List.reverse_cons, List.findSome?_append, Option.or_assoc]
    simp

theorem target?_objectSchema_of_get? {definitions : Members} {name : String} {definition : Json}
    (held : definitions.get? name = some definition) {reference : String}
    (leads : Schema.stepsOf? reference = some [definitionsKey, name]) (schema : Field → Json)
    (fields : List Field) :
    Schema.target? (objectSchema schema fields definitions) reference = some definition := by
  have some : definitionMembers definitions = [(definitionsKey, .object definitions)] := by
    cases definitions with
    | nil => cases held
    | cons first rest => rfl
  have table : (objectSchema schema fields definitions).step? definitionsKey =
      Option.some (.object definitions) := by
    show (definitionMembers definitions).get? definitionsKey = _
    rw [some]
    rfl
  rw [Schema.target?_eq, leads, Option.bind_some, Json.follow?, table, Option.bind_some, Json.follow?]
  show (definitions.get? name).bind _ = _
  rw [held]
  rfl

/-- A reference to a definition that a parameter declares denotes this definition in both schemas of the
arguments, unless a later parameter declares another one of its name. -/
theorem target?_of_declared [SchemaLibrary] {tool : Tool} {doc : DocBlock} {model : ArgumentModel}
    (made : ofTool tool doc = .ok model) {before after : List ToolParameter}
    {parameter : ToolParameter} (free : tool.freeParameters = before ++ parameter :: after)
    (distinct : ∀ declared ∈ tool.freeParameters, ∀ schema ∈ declared.schema?, schema.HasDistinctKeys)
    (whole : ¬ OpenApi.IsSplit parameter.declared) {name : String} {definition : Json}
    (defined : parameter.definition? name = some definition)
    (agree : ∀ later ∈ after, ∀ other, later.definition? name = some other →
      OpenApi.normalize other = OpenApi.normalize definition)
    {reference : String} (leads : Schema.stepsOf? reference = some [definitionsKey, name]) :
    Schema.target? model.schema reference = some (OpenApi.normalize definition) ∧
      Schema.target? (objectSchema Field.validation model.fields model.definitions) reference =
        some (OpenApi.normalize definition) := by
  have isMadeOf := isMadeOf_of_ofTool made
  rw [free] at distinct
  have own := distinct parameter (List.mem_append_right _ List.mem_cons_self)
  have hoists : (Field.hoisted doc parameter).get? name = some (OpenApi.normalize definition) := by
    rcases Field.get?_hoisted own doc name with ⟨-, same⟩ | ⟨split, -⟩
    · rw [same, defined, Option.map_some]
    · exact absurd split whole
  have later : ∀ found, (after.reverse.findSome? fun later => (Field.hoisted doc later).get? name) =
      some found → found = OpenApi.normalize definition := by
    intro found first
    obtain ⟨later, inside, hoists⟩ := List.exists_of_findSome?_eq_some first
    have behind := List.mem_reverse.mp inside
    rcases Field.get?_hoisted (distinct later (List.mem_append_right _ (List.mem_cons_of_mem _ behind)))
      doc name with ⟨-, same⟩ | ⟨-, gone⟩
    · rw [same] at hoists
      obtain ⟨other, declares, rfl⟩ := Option.map_eq_some_iff.mp hoists
      exact agree later behind other declares
    · rw [gone] at hoists
      cases hoists
  have held : model.definitions.get? name = some (OpenApi.normalize definition) := by
    rw [isMadeOf.definitions, free, get?_definitionsOf doc fun declared inside =>
      Field.nodup_keys_hoisted (distinct declared inside) doc, List.reverse_append, List.reverse_cons,
      List.findSome?_append, List.findSome?_append, List.findSome?_singleton, hoists]
    cases first : after.reverse.findSome? fun later => (Field.hoisted doc later).get? name with
    | none => rfl
    | some found => rw [later found first]; rfl
  exact ⟨target?_objectSchema_of_get? held leads Field.schema model.fields,
    target?_objectSchema_of_get? held leads Field.validation model.fields⟩

/-- A parameter of a type that it defines itself. -/
def definingParameter (name : String) (definition : Json) : ToolParameter :=
  { name, schema? := some (.object [("$ref", .text "#/$defs/T"),
      ("$defs", .object [("T", definition)])]) }

/-- A tool with parameters that each define their type. -/
def definingTool (parameters : List ToolParameter) : Tool :=
  { (default : Tool) with name := "f", parameters }

/-- An integer or null, as API documents write it. -/
def flaggedInteger : Json := .object [("type", .text "integer"), ("nullable", .bool true)]

/-- An integer or null, as a validator understands it. -/
def listedInteger : Json := .object [("type", Json.ofTexts ["integer", "null"])]

theorem target?_of_declared_flaggedInteger : ∃ model,
    ofTool (definingTool [definingParameter "a" flaggedInteger, definingParameter "b" listedInteger])
      .empty = .ok model ∧
    ¬ OpenApi.IsSplit (definingParameter "a" flaggedInteger).declared ∧
    (definingParameter "a" flaggedInteger).definition? "T" = some flaggedInteger ∧
    Schema.stepsOf? "#/$defs/T" = some [definitionsKey, "T"] ∧
    Schema.target? model.schema "#/$defs/T" = some listedInteger ∧
    Schema.target? (objectSchema Field.validation model.fields model.definitions) "#/$defs/T" =
      some listedInteger := by
  have built : (ofTool (definingTool [definingParameter "a" flaggedInteger,
      definingParameter "b" listedInteger]) .empty).toOption.isSome = true := by decide +kernel
  obtain ⟨model, done⟩ := Option.isSome_iff_exists.mp built
  have made := eq_ok_of_toOption done
  have distinct : ∀ declared ∈ [definingParameter "a" flaggedInteger,
      definingParameter "b" listedInteger], ∀ schema ∈ declared.schema?, schema.HasDistinctKeys := by
    simp [definingParameter, flaggedInteger, listedInteger, Json.hasDistinctKeys_object_iff,
      Json.hasDistinctKeys_array_iff, Members.keys, Json.ofTexts]
  have whole : ¬ OpenApi.IsSplit (definingParameter "a" flaggedInteger).declared := by
    intro split
    exact Option.some_ne_none _ split.nullable.symm
  have agree : ∀ later ∈ [definingParameter "b" listedInteger], ∀ other,
      later.definition? "T" = some other →
      OpenApi.normalize other = OpenApi.normalize flaggedInteger := by
    intro later inside other declares
    rw [List.mem_singleton.mp inside] at declares
    obtain rfl : listedInteger = other := Option.some.inj declares
    rfl
  have leads : Schema.stepsOf? "#/$defs/T" = some [definitionsKey, "T"] := by decide +kernel
  have free : (definingTool [definingParameter "a" flaggedInteger,
      definingParameter "b" listedInteger]).freeParameters =
        [] ++ definingParameter "a" flaggedInteger :: [definingParameter "b" listedInteger] := rfl
  exact ⟨model, made, whole, rfl, leads, target?_of_declared made free distinct whole rfl agree leads⟩

/-- A parameter whose schema is split. -/
def splitParameter : ToolParameter :=
  { name := "a", schema? := some (.object [("nullable", .bool true),
      ("$defs", .object [("T", FieldType.typeSchema "integer")])]) }

/-- A reference to a definition of one parameter denotes that of a later one under the same name, so an
argument is checked against the wrong type; and what a split schema defines is not to be found. -/
theorem exists_definition_lost :
    (∃ model, ofTool (definingTool [definingParameter "a" (FieldType.typeSchema "integer"),
        definingParameter "b" (FieldType.typeSchema "string")]) .empty = .ok model ∧
      (definingParameter "a" (FieldType.typeSchema "integer")).definition? "T" =
        some (FieldType.typeSchema "integer") ∧
      (Schema.target? model.schema "#/$defs/T").bind (·.textAt? "type") = some "string" ∧
      model.validate [("a", .number (.int 1)), ("b", .text "x")] =
        .error (.invalidArguments "f" ["/a: 1 is not of type \"string\""])) ∧
    ∃ model, ofTool (definingTool [splitParameter]) .empty = .ok model ∧
      splitParameter.definition? "T" = some (FieldType.typeSchema "integer") ∧
      Schema.target? model.schema "#/$defs/T" = none := by
  constructor
  · have computed : ((ofTool (definingTool [definingParameter "a" (FieldType.typeSchema "integer"),
        definingParameter "b" (FieldType.typeSchema "string")]) .empty).toOption.map fun model =>
          ((Schema.target? model.schema "#/$defs/T").bind (·.textAt? "type"),
            model.refusal? [("a", .number (.int 1)), ("b", .text "x")])) =
        some (some "string",
          some (.invalidArguments "f" ["/a: 1 is not of type \"string\""])) := by decide +kernel
    obtain ⟨model, done, parts⟩ := Option.map_eq_some_iff.mp computed
    obtain ⟨type, refused⟩ := Prod.mk.inj parts
    exact ⟨model, eq_ok_of_toOption done, rfl, type, validate_eq_error refused⟩
  · have computed : ((ofTool (definingTool [splitParameter]) .empty).toOption.map fun model =>
        (Schema.target? model.schema "#/$defs/T").isNone) = some true := by decide +kernel
    obtain ⟨model, done, missing⟩ := Option.map_eq_some_iff.mp computed
    exact ⟨model, eq_ok_of_toOption done, rfl, Option.isNone_iff_eq_none.mp missing⟩

end ArgumentModel

end ApiSurface
