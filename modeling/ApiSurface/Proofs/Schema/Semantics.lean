/-
This file says what is taken for granted about schemas and about a library that checks values against
them. What a schema means is not defined here: a meaning is given by what counts as a schema, which values
are valid, and where references lead. It is standard if it keeps the few rules that schemas of arguments
are made with, and a library implements it if its checks find something wrong with exactly the values that
are not valid. The two things that a library must do for arguments to be complete and in no order, namely
to refuse what lacks a required member and to ask for no order, follow from that.
-/

import ApiSurface.Proofs.Json.Members
import ApiSurface.Tool.Model

namespace ApiSurface

open Json (Members)

/-! ### Annotations -/

namespace Schema

/-- Whether a keyword restricts values or may do so, which an annotation does not. -/
def isRestricting (keyword : String) : Bool :=
  !OpenApi.annotations.contains keyword

/-- The keywords of a schema that are no annotations. -/
def restrictions {Content : Type} (entries : List (String × Content)) : List (String × Content) :=
  entries.filter fun entry => isRestricting entry.1

theorem restrictions_cons {Content : Type} (keyword : String) (content : Content)
    (rest : List (String × Content)) :
    restrictions ((keyword, content) :: rest) =
      if isRestricting keyword = true then (keyword, content) :: restrictions rest
      else restrictions rest :=
  List.filter_cons

/-- Putting an annotation changes no restriction. -/
theorem restrictions_insert {keyword : String} (harmless : isRestricting keyword = false)
    (members : Members) (value : Json) :
    restrictions (members.insert keyword value) = restrictions members := by
  induction members with
  | nil => rw [Members.insert, restrictions_cons, harmless, if_neg Bool.false_ne_true]
  | cons first rest inductionHypothesis =>
    obtain ⟨name, held⟩ := first
    unfold Members.insert
    split
    · next same =>
      rw [restrictions_cons, restrictions_cons, same, harmless, if_neg Bool.false_ne_true,
        if_neg Bool.false_ne_true]
    · rw [restrictions_cons, restrictions_cons, inductionHypothesis]

/-- A schema without the annotations that it has itself. -/
def withoutAnnotations : Json → Json
  | .object members => .object (restrictions members)
  | schema => schema

end Schema

/-! ### Meanings -/

/-- A meaning of schemas. -/
structure SchemaSemantics where
  /-- A document is a schema, with all the schemas inside it. -/
  IsSchema (document : Json) : Prop
  /-- A value is valid against a schema whose references lead into a document. -/
  Valid (document schema value : Json) : Prop
  /-- The references that a schema holds. -/
  references (schema : Json) : List String
  /-- The schema to which a reference leads in a document. -/
  target? (document : Json) (reference : String) : Option Json

namespace SchemaSemantics

variable (semantics : SchemaSemantics)

/-- A value follows a document that is a schema. -/
def Follows (document value : Json) : Prop :=
  semantics.IsSchema document ∧ semantics.Valid document document value

/-- What a schema refers to in a document, itself or by way of a schema to which a reference leads. -/
inductive Reaches (document schema : Json) : String → Prop
  /-- The schema holds the reference. -/
  | own {reference : String} (holds : reference ∈ semantics.references schema) :
    Reaches document schema reference
  /-- A schema holds it to which another reference leads. -/
  | further {reference other : String} {target : Json} (before : Reaches document schema other)
    (leads : semantics.target? document other = some target)
    (holds : reference ∈ semantics.references target) : Reaches document schema reference

/-- All that a schema refers to in a document leads to the same in another one, annotations aside. -/
def LeadsAlike (document other schema : Json) : Prop :=
  ∀ reference, semantics.Reaches document schema reference →
    (semantics.target? document reference).map Schema.withoutAnnotations =
      (semantics.target? other reference).map Schema.withoutAnnotations

/-- A meaning that keeps the rules of the language. -/
structure IsStandard : Prop where
  /-- Annotations restrict nothing, and a document matters only for where references lead. -/
  alike : ∀ {document other schema second value},
    Schema.withoutAnnotations schema = Schema.withoutAnnotations second →
    semantics.LeadsAlike document other schema →
    (semantics.Valid document schema value ↔ semantics.Valid other second value)
  /-- A schema without keywords allows everything. -/
  nothing : ∀ document value, semantics.Valid document (.object []) value
  /-- Null has the type of its name. -/
  null : ∀ document, semantics.Valid document OpenApi.nullSchema .null
  /-- One schema at least must allow a value of a choice. -/
  choice : ∀ document {schemas value}, semantics.IsSchema (.object [("anyOf", .array schemas)]) →
    (semantics.Valid document (.object [("anyOf", .array schemas)]) value ↔
      ∃ schema ∈ schemas, semantics.Valid document schema value)
  /-- The schemas of members are schemas. -/
  property : ∀ {properties required definitions},
    semantics.IsSchema (ArgumentModel.schemaOfMembers properties required definitions) →
    ∀ entry ∈ properties, semantics.IsSchema entry.2
  /-- The members of an object must follow the schemas of their names, and the required ones be there. -/
  members : ∀ document {properties required definitions} {arguments : Members},
    semantics.IsSchema (ArgumentModel.schemaOfMembers properties required definitions) →
    (semantics.Valid document (ArgumentModel.schemaOfMembers properties required definitions)
        (.object arguments) ↔
      (∀ entry ∈ properties, ∀ value, arguments.get? entry.1 = some value →
        semantics.Valid document entry.2 value) ∧ ∀ name ∈ required, name ∈ arguments.keys)

end SchemaSemantics

/-! ### Libraries -/

theorem Json.Members.keys_perm {members others : Members} (same : members.Perm others) :
    members.keys.Perm others.keys :=
  same.map Prod.fst

theorem Json.Members.get?_perm {members others : Members} (distinct : members.keys.Nodup)
    (same : members.Perm others) (key : String) : members.get? key = others.get? key := by
  ext value
  rw [get?_eq_some_iff distinct, get?_eq_some_iff ((keys_perm same).nodup_iff.mp distinct), same.mem_iff]

namespace SchemaLibrary

/-- A library makes checks for schemas only, and they find nothing wrong with exactly the values that
follow the schema. -/
def Implements (library : SchemaLibrary) (semantics : SchemaSemantics) : Prop :=
  ∀ document check, library.checkFor? document = some check →
    semantics.IsSchema document ∧ ∀ value, check value = [] ↔ semantics.Valid document document value

/-- A library finds something wrong with an object that lacks a required member. -/
def RefusesMissing (library : SchemaLibrary) : Prop :=
  ∀ properties required definitions check,
    library.checkFor? (ArgumentModel.schemaOfMembers properties required definitions) = some check →
    ∀ arguments : Members, ∀ name ∈ required, name ∉ arguments.keys → check (.object arguments) ≠ []

/-- Whether a library finds something wrong with an object does not depend on the order of its members. -/
def IgnoresOrder (library : SchemaLibrary) : Prop :=
  ∀ properties required definitions check,
    library.checkFor? (ArgumentModel.schemaOfMembers properties required definitions) = some check →
    ∀ arguments others : Members, arguments.keys.Nodup → arguments.Perm others →
      (check (.object arguments) = [] ↔ check (.object others) = [])

variable {library : SchemaLibrary} {semantics : SchemaSemantics}

theorem Implements.refusesMissing (implements : library.Implements semantics)
    (standard : semantics.IsStandard) : library.RefusesMissing := by
  intro properties required definitions check made arguments name needed missing none
  obtain ⟨isSchema, decides⟩ := implements _ _ made
  exact missing (((standard.members _ isSchema).mp ((decides _).mp none)).2 name needed)

theorem Implements.ignoresOrder (implements : library.Implements semantics)
    (standard : semantics.IsStandard) : library.IgnoresOrder := by
  intro properties required definitions check made arguments others distinct same
  obtain ⟨isSchema, decides⟩ := implements _ _ made
  have keys (name : String) : name ∈ arguments.keys ↔ name ∈ others.keys :=
    (Members.keys_perm same).mem_iff
  rw [decides, decides, standard.members _ isSchema, standard.members _ isSchema]
  simp only [Members.get?_perm distinct same, keys]

end SchemaLibrary

end ApiSurface
