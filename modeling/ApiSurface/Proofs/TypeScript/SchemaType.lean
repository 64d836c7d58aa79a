/-
This file proves that the type of a schema reads as the schema prescribes it. What schemas prescribe is
told apart from their texts. Nothing is added to a type about which nothing is known, as any value is of
it already, and it is only such a type that has the text by which this is decided.
-/

import ApiSurface.Proofs.TypeScript.TypeText

namespace ApiSurface.TypeScript

open Json (Members)
open TypeForm (unionOf)

/-! ### What schemas prescribe -/

namespace TypeForm

/-- The type of the values of a JSON type, if there is one of this name. -/
def ofJsonType? (name : String) : Option TypeForm :=
  match name with
  | "string" => some (.word "string")
  | "number" | "integer" => some (.word "number")
  | "boolean" => some (.word "boolean")
  | "array" => some (.list (.word "unknown"))
  | "object" => some record
  | "null" => some (.word "null")
  | _ => none

/-- The texts that are allowed where only texts are listed. -/
def enumeration? (members : Members) : Option (List String) :=
  match members.get? "enum" with
  | some (.array (first :: rest)) => (first :: rest).mapM Json.asText?
  | _ => none

/-- The alternatives that are known, and null if the schema is nullable. -/
def withNull (members : Members) : Option (List TypeForm) → List TypeForm
  | none => [.word "unknown"]
  | some alternatives =>
    if (members.get? "nullable").bind Json.asBool? = some true then alternatives ++ [.word "null"]
    else alternatives

mutual

/-- The alternatives of the type that a schema prescribes. Binary content is a blob and nothing else. -/
def alternativesOf (schema : Json) : List TypeForm :=
  match schema with
  | .object members =>
    if isBinary (.object members) then [.word "Blob"]
    else
      let name := ((members.lookup "type").bind Json.asText?).getD "unknown"
      withNull members <|
        if (name = "object" || name = "unknown") && Members.contains members "properties" then
          match found : members.lookup "properties" with
          | some (.object properties) =>
            have : sizeOf properties < 1 + sizeOf members := by
              have := Members.sizeOf_get? found
              simp only [Json.object.sizeOf_spec] at this
              omega
            some [ofFields (fieldsOf (textsAt members "required") properties)]
          | _ => some [record]
        else if name = "array" then
          match found : members.lookup "items" with
          | some items =>
            have : sizeOf items < 1 + sizeOf members := by
              have := Members.sizeOf_get? found
              omega
            some [.list (unionOf (alternativesOf items))]
          | none => some [.list (.word "unknown")]
        else if name = "string" then
          some (((enumeration? members).map fun texts => texts.map .literal).getD [.word "string"])
        else (ofJsonType? name).map ([·])
  | _ => [.word "unknown"]
termination_by sizeOf schema

/-- The fields that properties prescribe. -/
def fieldsOf (required : List String) (properties : List (String × Json)) :
    List (FieldName × TypeForm) :=
  match properties with
  | [] => []
  | (name, property) :: rest =>
    (⟨name, !required.contains name⟩, unionOf (alternativesOf property)) :: fieldsOf required rest
termination_by sizeOf properties

end

/-- The type that a schema prescribes. -/
def ofSchema (schema : Json) : TypeForm :=
  unionOf (alternativesOf schema)

end TypeForm

/-! ### Types of schemas -/

/-- A text is written for alternatives that are known and do not allow any value, or it is that of a type
about which nothing is known. -/
def IsWrittenFor (text : String) : Option (List TypeForm) → Prop
  | none => text = "unknown"
  | some alternatives => IsWritten text alternatives ∧ alternatives ≠ [.word "unknown"]

theorem isWritten_unknown : IsWritten "unknown" [.word "unknown"] :=
  isWritten_word rfl (by decide) (by decide)

theorem isWritten_withNull (members : Members) {text : String} {known? : Option (List TypeForm)}
    (written : IsWrittenFor text known?) :
    IsWritten (withNull members text) (TypeForm.withNull members known?) := by
  cases known? with
  | none =>
    obtain rfl : text = "unknown" := written
    rw [withNull, if_neg (by simp)]
    exact isWritten_unknown
  | some alternatives =>
    obtain ⟨writtenText, known⟩ := written
    have different : text ≠ "unknown" := by
      rintro rfl
      exact known (writtenText.unique isWritten_unknown)
    by_cases nullable : (members.get? "nullable").bind Json.asBool? = some true
    · rw [withNull, if_pos (by simp [nullable, different]), TypeForm.withNull, if_pos nullable]
      have null : IsWritten "null" [.word "null"] :=
        isWritten_word rfl (by decide) (by decide)
      have joined : text ++ " | null" = text ++ " | " ++ "null" := by
        rw [String.append_assoc]
        rfl
      exact joined ▸ writtenText.union null
    · rw [withNull, if_neg (by simp [nullable]), TypeForm.withNull, if_neg nullable]
      exact writtenText

theorem IsWrittenFor.of_ne {text : String} {form : TypeForm} (written : IsWritten text [form])
    (known : form ≠ .word "unknown") : IsWrittenFor text (some [form]) :=
  ⟨written, fun same => known (List.singleton_injective same)⟩

theorem isWrittenFor_ofJsonType (name : String) :
    IsWrittenFor (ofJsonType name) ((TypeForm.ofJsonType? name).map ([·])) := by
  by_cases named : name ∈ ["array", "object", "string", "number", "integer", "boolean", "null"]
  · simp only [List.mem_cons, List.not_mem_nil, or_false] at named
    rcases named with rfl | rfl | rfl | rfl | rfl | rfl | rfl
    · exact .of_ne isWritten_unknown.arrayOf nofun
    · exact .of_ne isWritten_record nofun
    all_goals exact .of_ne (isWritten_word rfl (by decide) (by decide)) (by simp)
  · simp only [List.mem_cons, List.not_mem_nil, or_false, not_or] at named
    simp [ofJsonType, TypeForm.ofJsonType?, named, IsWrittenFor]

theorem enumeration?_ne_nil {members : Members} {texts : List String}
    (found : TypeForm.enumeration? members = some texts) : texts ≠ [] := by
  unfold TypeForm.enumeration? at found
  split at found
  · rintro rfl
    simp [List.mapM_cons, Option.bind_eq_some_iff] at found
  · cases found

theorem literalUnion?_eq (members : Members) :
    literalUnion? members = (TypeForm.enumeration? members).map fun texts =>
      " | ".intercalate (texts.map stringLiteral) := by
  unfold literalUnion? TypeForm.enumeration?
  cases members.get? "enum" with
  | none => rfl
  | some listed =>
    cases listed with
    | array items => cases items <;> rfl
    | _ => rfl

theorem isWritten_intercalate {texts : List String} (filled : texts ≠ []) :
    IsWritten (" | ".intercalate (texts.map stringLiteral)) (texts.map .literal) := by
  induction texts with
  | nil => exact absurd rfl filled
  | cons first rest inductionHypothesis =>
    cases rest with
    | nil => exact isWritten_literal first
    | cons second others =>
      have joined := (isWritten_literal first).union (inductionHypothesis (List.cons_ne_nil _ _))
      rw [List.map_cons, List.map_cons, String.intercalate_cons_cons]
      exact joined

theorem isWrittenFor_literalUnion (members : Members) :
    IsWrittenFor ((literalUnion? members).getD "string")
      (some (((TypeForm.enumeration? members).map fun texts => texts.map .literal).getD
        [.word "string"])) := by
  rw [literalUnion?_eq]
  cases found : TypeForm.enumeration? members with
  | none => exact .of_ne (isWritten_word rfl (by decide) (by decide)) (by simp)
  | some texts =>
    have filled := enumeration?_ne_nil found
    refine ⟨isWritten_intercalate filled, ?_⟩
    obtain ⟨first, rest, rfl⟩ := List.exists_cons_of_ne_nil filled
    nofun

mutual

/-- The type of a schema reads as the schema prescribes. -/
theorem isWritten_ofSchema (schema : Json) :
    IsWritten (ofSchema schema) (TypeForm.alternativesOf schema) := by
  match schema with
  | .object members =>
    rw [ofSchema, TypeForm.alternativesOf]
    split
    · exact isWritten_word rfl (by decide) (by decide)
    · dsimp only
      refine isWritten_withNull members ?_
      -- text and type both look up the properties and the items, and they find the same
      split
      · cases found : members.lookup "properties" with
        | none => exact .of_ne isWritten_record nofun
        | some value =>
          cases value with
          | object properties =>
            have smaller : sizeOf properties < 1 + sizeOf members := by
              have inside := Members.sizeOf_get? found
              simp only [Json.object.sizeOf_spec] at inside
              omega
            have fields := isWritten_fieldsOf (textsAt members "required") properties
            refine .of_ne (isWritten_objectOf fields) ?_
            cases TypeForm.fieldsOf (textsAt members "required") properties <;> nofun
          | _ => exact .of_ne isWritten_record nofun
      split
      · cases found : members.lookup "items" with
        | none => exact .of_ne isWritten_unknown.arrayOf nofun
        | some items =>
          have smaller := Members.sizeOf_get? found
          exact .of_ne (isWritten_ofSchema items).arrayOf nofun
      · split
        · exact isWrittenFor_literalUnion members
        · exact isWrittenFor_ofJsonType _
  | .null | .bool _ | .number _ | .text _ | .array _ =>
    rw [ofSchema, TypeForm.alternativesOf]
    · exact isWritten_unknown
    · exact nofun
    · exact nofun
termination_by sizeOf schema

theorem isWritten_fieldsOf (required : List String) (properties : List (String × Json)) :
    List.Forall₂ IsWrittenField (fieldsOf required properties)
      (TypeForm.fieldsOf required properties) := by
  match properties with
  | [] =>
    rw [fieldsOf, TypeForm.fieldsOf]
    exact .nil
  | (name, property) :: rest =>
    rw [fieldsOf, TypeForm.fieldsOf]
    refine .cons ⟨_, _, isWritten_ofSchema property, rfl, ?_⟩ (isWritten_fieldsOf required rest)
    cases required.contains name <;> rfl
termination_by sizeOf properties

end

/-- The type of a schema is one line, and it reads as the type that the schema prescribes: an array is
one of the whole type of its items, each field has its own name, mark and type, and all literals and null
are in one union. So schemas that prescribe different types never have the same text, whatever the names
and literals in them are. -/
theorem readType?_ofSchema (schema : Json) :
    (∀ character ∈ (ofSchema schema).toList, character ≠ '\n' ∧ character ≠ '\r') ∧
      readType? (ofSchema schema) = some (TypeForm.ofSchema schema) ∧
      ∀ other, TypeForm.ofSchema other ≠ TypeForm.ofSchema schema → ofSchema other ≠ ofSchema schema := by
  have read (schema : Json) : readType? (ofSchema schema) = some (TypeForm.ofSchema schema) :=
    (isWritten_ofSchema schema).readType?
  refine ⟨fun character inside => ?_, read schema, fun other different same => ?_⟩
  · have printable := isPrintable_iff.mp (isWritten_ofSchema schema).printable character inside
    constructor <;> rintro rfl <;> exact absurd printable (by decide)
  · refine different (Option.some.inj ?_)
    rw [← read other, ← read schema, same]

/-- A name and a literal that look like parts of a type are a name and a literal. -/
example : readType? "\x7b \"a?: b\": Array<\"[]\" | null> \x7d" =
    some (.object [(⟨"a?: b", false⟩, .list (.union [.literal "[]", .word "null"]))]) := by
  cbv

end ApiSurface.TypeScript
