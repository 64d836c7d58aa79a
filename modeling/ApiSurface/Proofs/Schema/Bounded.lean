/-
This file gives schemas a meaning that is standard, and a library that implements it. The rules are those
of the validator, but references are followed into the document itself, and only so many times one into
the other: after that they allow everything. The number may be any, as what makes the meaning standard are
the rules and not the references.
-/

import ApiSurface.Proofs.Schema.Annotation
import ApiSurface.Proofs.Schema.Following

namespace ApiSurface

open Json (Members)

namespace Schema

/-! ### Documents as schemas -/

/-- The violations of a document that is a schema once its own annotations are gone. Any other document
forbids everything. -/
def violationsOf (follow : String → Json → List Violation) (document value : Json) : List Violation :=
  match read? (withoutAnnotations document) with
  | some schema => violations follow schema value
  | none => [⟨[], value, .forbidden⟩]

/-- The references that a document holds as a schema. -/
def referencesOf (document : Json) : List String :=
  (read? (withoutAnnotations document)).elim [] references

theorem violationsOf_eq {document : Json} {schema : Schema} (read : read? document = some schema)
    (follow : String → Json → List Violation) :
    violationsOf follow document = violations follow schema := by
  obtain ⟨plain, found, alike⟩ := exists_read?_withoutAnnotations read
  funext value
  rw [violationsOf, found, alike.violations_eq]

theorem violationsOf_congr {first second : String → Json → List Violation} {document : Json}
    (agree : ∀ reference ∈ referencesOf document, first reference = second reference) (value : Json) :
    violationsOf first document value = violationsOf second document value := by
  unfold violationsOf
  unfold referencesOf at agree
  split
  · next schema read =>
    rw [read] at agree
    exact violations_congr schema value agree
  · rfl

/-- What a reference forbids when so many may be followed one into the other. -/
def followWithin (document : Json) : Nat → String → Json → List Violation
  | 0, _, _ => []
  | hops + 1, reference, value =>
    match target? document reference with
    | some target => violationsOf (followWithin document hops) target value
    | none => [⟨[], value, .forbidden⟩]

/-! ### Choices -/

theorem exists_violationsOf_eq_nil_iff {schemas : List Json} {choices : List Schema}
    (read : readItems? schemas = some choices) (follow : String → Json → List Violation)
    (value : Json) :
    (eachViolations follow choices value).any List.isEmpty = true ↔
      ∃ schema ∈ schemas, violationsOf follow schema value = [] := by
  induction schemas generalizing choices with
  | nil =>
    obtain rfl := Option.some.inj read
    exact iff_of_false Bool.false_ne_true fun ⟨_, inside, _⟩ => List.not_mem_nil inside
  | cons first rest inductionHypothesis =>
    obtain ⟨schema, here, read⟩ := Option.bind_eq_some_iff.mp read
    obtain ⟨others, further, made⟩ := Option.bind_eq_some_iff.mp read
    obtain rfl := Option.some.inj made
    rw [eachViolations, List.any_cons, Bool.or_eq_true, inductionHypothesis further,
      List.isEmpty_iff, ← violationsOf_eq here, List.exists_mem_cons_iff]

/-- A value follows a choice of schemas if it follows one of them. -/
theorem violationsOf_choice_eq_nil_iff {schemas : List Json} {schema : Schema}
    (read : read? (.object [("anyOf", .array schemas)]) = some schema)
    (follow : String → Json → List Violation) (value : Json) :
    violationsOf follow (.object [("anyOf", .array schemas)]) value = [] ↔
      ∃ schema ∈ schemas, violationsOf follow schema value = [] := by
  rw [violationsOf_eq read]
  obtain ⟨parts, found, rfl⟩ := read?_object_eq_some read
  obtain ⟨part, others, readPart, readRest, rfl⟩ := readMembers?_cons_eq_some found
  obtain rfl : [] = others := Option.some.inj readRest
  obtain ⟨choices, readItems, filled⟩ := Option.bind_eq_some_iff.mp readPart
  split at filled
  · cases filled
  · obtain rfl := Option.some.inj filled
    have rule : ([("anyOf", Part.schemas choices)] : Parts).filterMap
        (ruleOf? [("anyOf", .schemas choices)]) = [.anyOf choices] := rfl
    rw [rule, violations, violationsOfAll, violationsOfAll, List.append_nil, ruleViolations, demand,
      ← exists_violationsOf_eq_nil_iff readItems]
    split
    · next allowed => exact iff_of_true rfl allowed
    · next refused => exact iff_of_false (List.cons_ne_nil _ _) refused

/-! ### Members -/

theorem asTexts?_ofTexts {texts : List String}
    (accepted : (asTexts? (Json.ofTexts texts)).isSome = true) :
    asTexts? (Json.ofTexts texts) = some texts := by
  have mapped : (texts.map Json.text).mapM Json.asText? = some texts := by
    rw [List.mapM_map]
    exact List.mapM_pure.trans (congrArg some (List.map_id texts))
  have whole : asTexts? (Json.ofTexts texts) =
      if decide texts.Nodup = true then some texts else none := by
    show ((texts.map Json.text).mapM Json.asText?).bind _ = _
    rw [mapped]
    rfl
  rw [whole] at accepted ⊢
  split at accepted
  · next distinct => exact if_pos distinct
  · cases accepted

/-- Names are read as those that are required. -/
theorem readPart?_required {names : List String} {part : Part}
    (read : readPart? "required" (Json.ofTexts names) = some part) :
    part = .plain (Json.ofTexts names) ∧
      ∀ parts, ruleOf? parts ("required", part) = some (.required names) := by
  replace read : (if (asTexts? (Json.ofTexts names)).isSome = true
    then some (Part.plain (Json.ofTexts names)) else none) = some part := read
  split at read
  · next accepted =>
    obtain rfl := Option.some.inj read
    refine ⟨rfl, fun parts => ?_⟩
    show (asTexts? _).map Rule.required = _
    rw [asTexts?_ofTexts accepted]
    rfl
  · cases read

/-- Definitions give no rule. -/
theorem readMembers?_definitionMembers {definitions : Members} {parts : Parts}
    (read : readMembers? (ArgumentModel.definitionMembers definitions) = some parts) :
    parts = [] ∨ ∃ schemas, parts = [(Field.definitionsKey, .table schemas)] := by
  unfold ArgumentModel.definitionMembers at read
  split at read
  · exact .inl (Option.some.inj read).symm
  · obtain ⟨part, rest, readPart, readRest, rfl⟩ := readMembers?_cons_eq_some read
    obtain ⟨schemas, -, rfl⟩ := Option.map_eq_some_iff.mp readPart
    obtain rfl : [] = rest := Option.some.inj readRest
    exact .inr ⟨schemas, rfl⟩

/-- The schema of an object with members asks for an object that has the required ones, and for members
that follow the schemas of their names. -/
theorem read?_schemaOfMembers {properties : Members} {required : List String} {definitions : Members}
    {schema : Schema}
    (read : read? (ArgumentModel.schemaOfMembers properties required definitions) = some schema) :
    ∃ written declared, readEntries? properties = some declared ∧
      schema = .rules written [.type [.object], .properties declared, .required required] := by
  obtain ⟨parts, found, rfl⟩ := read?_object_eq_some read
  obtain ⟨type, afterType, readType, behindType, rfl⟩ := readMembers?_cons_eq_some found
  obtain ⟨table, afterTable, readTable, behindTable, rfl⟩ := readMembers?_cons_eq_some behindType
  obtain ⟨names, others, readNames, behind, rfl⟩ := readMembers?_cons_eq_some behindTable
  obtain rfl : Part.plain (.text "object") = type := Option.some.inj readType
  obtain ⟨declared, readDeclared, rfl⟩ := Option.map_eq_some_iff.mp readTable
  obtain ⟨rfl, needed⟩ := readPart?_required readNames
  refine ⟨_, declared, readDeclared, congrArg (Schema.rules _) ?_⟩
  -- whether other members are allowed is asked of all parts, so the definitions must be known
  rcases readMembers?_definitionMembers behind with rfl | ⟨schemas, rfl⟩ <;>
    rw [List.filterMap_cons, List.filterMap_cons, List.filterMap_cons, needed] <;> rfl

theorem isSome_read?_of_mem {properties : Members} {declared : List (String × Schema)}
    (read : readEntries? properties = some declared) {entry : String × Json}
    (inside : entry ∈ properties) : (read? entry.2).isSome = true := by
  induction properties generalizing declared with
  | nil => exact absurd inside List.not_mem_nil
  | cons first rest inductionHypothesis =>
    obtain ⟨schema, here, read⟩ := Option.bind_eq_some_iff.mp read
    obtain ⟨others, further, -⟩ := Option.bind_eq_some_iff.mp read
    rcases List.mem_cons.mp inside with rfl | later
    · exact Option.isSome_iff_exists.mpr ⟨schema, here⟩
    · exact inductionHypothesis further later

theorem declaredViolations_eq_nil_iff {properties : Members} {declared : List (String × Schema)}
    (read : readEntries? properties = some declared) (follow : String → Json → List Violation)
    (members : Members) :
    (declaredViolations follow declared members).flatMap Prod.snd = [] ↔
      ∀ entry ∈ properties, ∀ value, members.get? entry.1 = some value →
        violationsOf follow entry.2 value = [] := by
  induction properties generalizing declared with
  | nil =>
    obtain rfl := Option.some.inj read
    exact iff_of_true rfl fun _ inside => absurd inside List.not_mem_nil
  | cons first rest inductionHypothesis =>
    obtain ⟨name, document⟩ := first
    obtain ⟨schema, here, read⟩ := Option.bind_eq_some_iff.mp read
    obtain ⟨others, further, made⟩ := Option.bind_eq_some_iff.mp read
    obtain rfl := Option.some.inj made
    rw [declaredViolations, List.flatMap_cons, List.append_eq_nil_iff, inductionHypothesis further,
      List.forall_mem_cons, violationsOf_eq here]
    refine and_congr_left' ?_
    cases members.get? name with
    | none => exact iff_of_true rfl fun _ => nofun
    | some member =>
      refine List.map_eq_nil_iff.trans ⟨fun none other same => ?_, fun each => each member rfl⟩
      rwa [← Option.some.inj same]

theorem missingNames_eq_nil_iff {value : Json} {members : Members} {names : List String} :
    missingNames value members names = [] ↔ ∀ name ∈ names, name ∈ members.keys := by
  refine List.flatMap_eq_nil_iff.trans (forall₂_congr fun name _ => ?_)
  rw [← Members.contains_eq_true_iff, demand]
  split
  · next there => exact iff_of_true rfl there
  · next missing => exact iff_of_false (List.cons_ne_nil _ _) missing

/-- An object follows a schema of its members if those that are required are there and each of them
follows the schema of its name. -/
theorem violationsOf_members_eq_nil_iff {properties : Members} {required : List String}
    {definitions : Members} {schema : Schema}
    (read : read? (ArgumentModel.schemaOfMembers properties required definitions) = some schema)
    (follow : String → Json → List Violation) (members : Members) :
    violationsOf follow (ArgumentModel.schemaOfMembers properties required definitions)
        (.object members) = [] ↔
      (∀ entry ∈ properties, ∀ value, members.get? entry.1 = some value →
        violationsOf follow entry.2 value = []) ∧ ∀ name ∈ required, name ∈ members.keys := by
  rw [violationsOf_eq read]
  obtain ⟨written, declared, readDeclared, rfl⟩ := read?_schemaOfMembers read
  have sum : violations follow
      (.rules written [.type [.object], .properties declared, .required required]) (.object members) =
        (declaredViolations follow declared members).flatMap Prod.snd ++
          missingNames (.object members) members required := by
    simp [violations, violationsOfAll, ruleViolations, demand, hasType, TypeName.holds]
  rw [sum, List.append_eq_nil_iff, declaredViolations_eq_nil_iff readDeclared, missingNames_eq_nil_iff]

end Schema

open Schema (referencesOf violationsOf followWithin)

/-! ### The meaning -/

namespace SchemaSemantics

/-- What schemas mean when so many references are followed one into the other. -/
def bounded (hops : Nat) : SchemaSemantics where
  IsSchema document := (Schema.read? document).isSome = true
  Valid document schema value := violationsOf (followWithin document hops) schema value = []
  references := referencesOf
  target? := Schema.target?

/-- References that lead to the same lead there however many are followed. -/
theorem followWithin_congr {hops : Nat} {document other schema : Json}
    (alike : (bounded hops).LeadsAlike document other schema) (steps : Nat) {reference : String}
    (reaches : (bounded hops).Reaches document schema reference) :
    followWithin document steps reference = followWithin other steps reference := by
  induction steps generalizing reference with
  | zero => rfl
  | succ steps inductionHypothesis =>
    have same : (Schema.target? document reference).map Schema.withoutAnnotations =
        (Schema.target? other reference).map Schema.withoutAnnotations := alike reference reaches
    funext value
    rw [followWithin, followWithin]
    cases here : Schema.target? document reference with
    | none =>
      rw [here] at same
      rw [Option.map_eq_none_iff.mp same.symm]
    | some target =>
      rw [here] at same
      obtain ⟨second, there, plain⟩ := Option.map_eq_some_iff.mp same.symm
      have followed : violationsOf (followWithin document steps) target value =
          violationsOf (followWithin other steps) target value :=
        Schema.violationsOf_congr
          (fun inner holds => inductionHypothesis (.further reaches here holds)) value
      rw [there]
      dsimp only
      rw [followed, violationsOf, violationsOf, plain]

theorem isStandard_bounded (hops : Nat) : (bounded hops).IsStandard where
  alike := by
    intro document other schema second value plain leadsAlike
    have followed : violationsOf (followWithin document hops) schema value =
        violationsOf (followWithin other hops) schema value :=
      Schema.violationsOf_congr
        (fun reference holds => followWithin_congr leadsAlike hops (.own holds)) value
    show violationsOf _ schema value = [] ↔ violationsOf _ second value = []
    rw [followed, violationsOf, violationsOf, plain]
  nothing _ _ := rfl
  null _ := rfl
  choice document schemas value isSchema := by
    obtain ⟨schema, read⟩ := Option.isSome_iff_exists.mp isSchema
    exact Schema.violationsOf_choice_eq_nil_iff read _ value
  property {properties required definitions} isSchema entry inside := by
    obtain ⟨schema, read⟩ := Option.isSome_iff_exists.mp isSchema
    obtain ⟨_, _, readEntries, -⟩ := Schema.read?_schemaOfMembers read
    exact Schema.isSome_read?_of_mem readEntries inside
  members document {properties required definitions arguments} isSchema := by
    obtain ⟨schema, read⟩ := Option.isSome_iff_exists.mp isSchema
    exact Schema.violationsOf_members_eq_nil_iff read _ arguments

end SchemaSemantics

/-! ### The library -/

namespace SchemaLibrary

/-- The library that follows so many references one into the other. -/
abbrev bounded (hops : Nat) : SchemaLibrary where
  checkFor? document := (Schema.read? document).map fun _ value =>
    (violationsOf (followWithin document hops) document value).map Schema.Violation.error

theorem implements_bounded (hops : Nat) : (bounded hops).Implements (.bounded hops) := by
  intro document check made
  obtain ⟨schema, read, rfl⟩ := Option.map_eq_some_iff.mp made
  exact ⟨Option.isSome_iff_exists.mpr ⟨schema, read⟩, fun value => List.map_eq_nil_iff⟩

end SchemaLibrary

end ApiSurface
