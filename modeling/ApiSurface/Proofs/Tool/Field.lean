/-
This file proves how the two schemas of a field belong together. The advertised one adds annotations to
what is checked, and the checked one also allows null where null is the default, so what follows the
first follows the second, whatever schemas mean as long as that is standard. Only where nothing is known
about the type do they differ otherwise: then anything is allowed.
-/

import ApiSurface.Proofs.Schema.Semantics
import ApiSurface.Proofs.Tool.Model

namespace ApiSurface

open Json (Members)

/-! ### Hints -/

namespace FieldType

/-- Neither the type nor that of any items is unknown. -/
def isKnown : FieldType → Bool
  | .untyped => false
  | .listOf item => item.isKnown
  | _ => true

theorem isKnown_ofItem (type : FieldType) (known : type = .untyped ∨ type.isKnown = true) :
    (ofItem type).isKnown = true := by
  rcases known with rfl | known
  · rfl
  · cases type with
    | untyped => rfl
    | _ => exact known

/-- A hint names no list of items of an unknown type. -/
theorem isKnown_ofHintChars (hint : List Char) :
    ofHintChars hint = .untyped ∨ (ofHintChars hint).isKnown = true := by
  have word (letters : List Char) : ofWord letters = .untyped ∨ (ofWord letters).isKnown = true := by
    have each : ∀ entry ∈ words, entry.2.isKnown = true := by decide
    unfold ofWord
    cases found : words.lookup (String.ofList letters) with
    | none => exact .inl rfl
    | some type =>
      exact .inr (each _ (Keyed.mem_of_lookup found))
  fun_induction ofHintChars hint with
  | case1 => exact word _
  | case2 hint item found shorter singular unknown first second =>
    exact .inr (isKnown_ofItem _ second)
  | case3 hint item found shorter singular known first =>
    exact .inr (isKnown_ofItem _ first)

theorem validationSchema_of_isKnown (type : FieldType) (known : type.isKnown = true) :
    type.validationSchema = type.schema := by
  induction type with
  | listOf item inductionHypothesis =>
    rw [validationSchema, schema, inductionHypothesis known]
  | untyped => cases known
  | _ => rfl

end FieldType

/-! ### Advertised and checked schemas -/

namespace Field

theorem restrictions_insertSome {keyword : String} (harmless : Schema.isRestricting keyword = false)
    (members : Members) (value? : Option Json) :
    Schema.restrictions (insertSome members keyword value?) = Schema.restrictions members := by
  cases value? with
  | none => rfl
  | some value => exact Schema.restrictions_insert harmless members value

/-- What advertises a parameter adds annotations only. -/
theorem restrictions_advertised (parameter : ToolParameter) (schema : Members)
    (said? : Option DocBlock.Argument) :
    Schema.restrictions (advertised parameter schema said?) = Schema.restrictions schema := by
  unfold advertised
  rw [restrictions_insertSome (by decide), Schema.restrictions_insert (by decide),
    restrictions_insertSome (by decide)]

/-- What is checked is the schema itself, or nothing where the type is not known. -/
theorem basisOf_cases (parameter : ToolParameter) (said? : Option DocBlock.Argument) :
    (∃ members, (basisOf parameter said?).schema = .object members ∧
        (basisOf parameter said?).validation = .object members ∧
        (basisOf parameter said?).hinted?.any FieldType.isUntyped = false) ∨
      ((basisOf parameter said?).schema = FieldType.typeSchema "string" ∧
        (basisOf parameter said?).validation = .object [] ∧
        (basisOf parameter said?).hinted?.any FieldType.isUntyped = true) := by
  unfold basisOf
  cases declared : declaredSchema? parameter with
  | some schema =>
    obtain ⟨-, keyword⟩ := Option.filter_eq_some_iff.mp declared
    split at keyword
    · exact .inl ⟨_, rfl, rfl, rfl⟩
    · cases keyword
  | none =>
    dsimp only [hintedBasis]
    generalize hint : ((said?.bind DocBlock.Argument.typeHint).map FieldType.ofHint).getD .untyped = type
    have sorted : type = .untyped ∨ type.isKnown = true := by
      rw [← hint]
      cases said?.bind DocBlock.Argument.typeHint with
      | none => exact .inl rfl
      | some word => exact FieldType.isKnown_ofHintChars word.toList
    rcases sorted with rfl | known
    · exact .inr ⟨rfl, rfl, rfl⟩
    · refine .inl ?_
      rw [FieldType.validationSchema_of_isKnown type known]
      cases type with
      | untyped => cases known
      | _ => exact ⟨_, rfl, rfl, rfl⟩

section

variable {semantics : SchemaSemantics} (standard : semantics.IsStandard) {parameter : ToolParameter}
  {said? : Option DocBlock.Argument} {doc : DocBlock} {document other value : Json}
include standard

theorem valid_basisOf
    (alike : (basisOf parameter said?).hinted?.any FieldType.isUntyped = false →
      semantics.LeadsAlike document other (.object (advertised parameter
        ((basisOf parameter said?).schema.asObject?.getD []) said?)))
    (allowed : (basisOf parameter said?).hinted?.any FieldType.isUntyped = true ∨
      semantics.Valid document (.object (advertised parameter
        ((basisOf parameter said?).schema.asObject?.getD []) said?)) value) :
    semantics.Valid other (basisOf parameter said?).validation value := by
  have advertises := restrictions_advertised parameter
    ((basisOf parameter said?).schema.asObject?.getD []) said?
  rcases basisOf_cases parameter said? with
    ⟨members, schema, validation, typed⟩ | ⟨-, validation, -⟩
  · rw [validation]
    refine (standard.alike ?_ (alike typed)).mp (allowed.resolve_left (typed ▸ Bool.false_ne_true))
    rw [schema] at advertises ⊢
    exact congrArg Json.object advertises
  · rw [validation]
    exact standard.nothing other value

/-- What follows the schema that advertises a field also follows the one that is checked, if their
references lead alike; and everything does if the type is not known. -/
theorem valid_fieldOf (isSchema : semantics.IsSchema (ArgumentModel.fieldOf doc parameter).validation)
    (alike : (ArgumentModel.fieldOf doc parameter).isUntyped = false →
      semantics.LeadsAlike document other (ArgumentModel.fieldOf doc parameter).schema)
    (allowed : (ArgumentModel.fieldOf doc parameter).isUntyped = true ∨
      semantics.Valid document (ArgumentModel.fieldOf doc parameter).schema value) :
    semantics.Valid other (ArgumentModel.fieldOf doc parameter).validation value := by
  have base := valid_basisOf standard alike allowed
  change semantics.IsSchema (withNullDefault parameter _) at isSchema
  show semantics.Valid other (withNullDefault parameter _) value
  unfold withNullDefault at isSchema ⊢
  split at isSchema
  · next null =>
    rw [if_pos null, standard.choice other isSchema]
    exact ⟨_, List.mem_cons_self, base⟩
  · next given =>
    rw [if_neg given]
    exact base

/-- The schema of a field that has null as its default allows null. -/
theorem valid_null_fieldOf
    (isSchema : semantics.IsSchema (ArgumentModel.fieldOf doc parameter).validation)
    (default : (ArgumentModel.fieldOf doc parameter).default? = some .null) :
    semantics.Valid document (ArgumentModel.fieldOf doc parameter).validation .null := by
  have null : parameter.default?.any Json.isNull = true := by
    rw [show parameter.default? = some .null from default]
    rfl
  change semantics.IsSchema (withNullDefault parameter _) at isSchema
  show semantics.Valid document (withNullDefault parameter _) .null
  rw [withNullDefault, if_pos null] at isSchema ⊢
  rw [standard.choice document isSchema]
  exact ⟨OpenApi.nullSchema, List.mem_cons_of_mem _ List.mem_cons_self, standard.null document⟩

end

end Field

end ApiSurface
