/-
This file proves that copying rewrites keywords only where a schema stands. Data is copied as it is, whatever
its keys are, and stays data all the way down. A map of names keeps its keys and their order, and each of its
values is copied as a schema, so a key that is spelled like a keyword is still a name.

Only a reference is followed wherever it stands, and only what lies too deep is cut, so this is about values
in which neither occurs.
-/

import ApiSurface.Proofs.OpenApi.Reuse
import ApiSurface.Proofs.Json.Nesting

namespace ApiSurface.OpenApi

open Json (EachObject FitsUnder Members)

/-- No object in a value is a reference. -/
def HasNoReference : Json → Prop :=
  EachObject fun members => referenceOf? members = none

/-- Copies of the values of a map, made one after the other, each as a schema. -/
inductive CopiesNamed (root : Json) (stack : List String) (levels : Nat) :
    Members → Progress → Members → Progress → Prop
  | nil (progress : Progress) : CopiesNamed root stack levels [] progress [] progress
  | cons {name : String} {value copy : Json} {rest copies : Members} {before between after : Progress}
    (first : resolveNode root stack .schema levels value before = (copy, between))
    (further : CopiesNamed root stack levels rest between copies after) :
    CopiesNamed root stack levels ((name, value) :: rest) before ((name, copy) :: copies) after

section

variable {root : Json} {stack : List String}

/-- Steps that give back what they are given and leave the progress alone. -/
theorem mapProgress_eq_self {Part : Type} {step : Part → Progress → Part × Progress} {parts : List Part}
    (each : ∀ part ∈ parts, ∀ progress, step part progress = (part, progress)) (progress : Progress) :
    mapProgress step parts progress = (parts, progress) := by
  induction parts with
  | nil => rfl
  | cons part rest inductionHypothesis =>
    rw [mapProgress, each part List.mem_cons_self]
    dsimp only
    rw [inductionHypothesis fun other inside => each other (List.mem_cons_of_mem _ inside)]

/-- Data is copied as it is. -/
theorem resolveNode_literal {levels opened : Nat} {value : Json} (plain : HasNoReference value)
    (fits : FitsUnder (opened + levels) opened value) (progress : Progress) :
    resolveNode root stack .literal levels value progress = (value, progress) := by
  induction levels generalizing opened value progress with
  | zero => exact absurd fits.opened_lt (Nat.lt_irrefl opened)
  | succ levels inductionHypothesis =>
    rw [← Nat.add_assoc, Nat.add_right_comm] at fits
    cases value with
    | object members =>
      have each : ∀ member ∈ members, ∀ progress,
          resolveMember root stack .literal levels member progress = (member, progress) := by
        intro member inside progress
        have copied := inductionHypothesis ((Json.eachObject_object_iff.mp plain).2 member inside)
          ((Json.fitsUnder_object_iff.mp fits).2 member inside) progress
        rw [resolveMember, Position.ofChild, copied]
      rw [resolveNode_of_none (Json.eachObject_object_iff.mp plain).1, mapProgress_eq_self each]
      rfl
    | array items =>
      have each : ∀ item ∈ items, ∀ progress,
          resolveNode root stack .literal levels item progress = (item, progress) :=
        fun item inside => inductionHypothesis (Json.eachObject_array_iff.mp plain item inside)
          ((Json.fitsUnder_array_iff.mp fits).2 item inside)
      rw [resolveNode, Position.ofItem, mapProgress_eq_self each]
    | _ => rfl

theorem CopiesNamed.keys_eq {levels : Nat} {members copies : Members} {before after : Progress}
    (copied : CopiesNamed root stack levels members before copies after) :
    copies.keys = members.keys := by
  induction copied with
  | nil => rfl
  | @cons name _ _ _ _ _ _ _ _ _ inductionHypothesis =>
    exact congrArg (List.cons name) inductionHypothesis

theorem exists_copiesNamed (levels : Nat) (members : Members) (progress : Progress) :
    ∃ copies after, mapProgress (resolveMember root stack .names levels) members progress =
      (copies, after) ∧ CopiesNamed root stack levels members progress copies after := by
  induction members generalizing progress with
  | nil => exact ⟨[], progress, rfl, .nil progress⟩
  | cons member rest inductionHypothesis =>
    obtain ⟨name, value⟩ := member
    cases made : resolveNode root stack .schema levels value progress with
    | mk copy between =>
      obtain ⟨copies, after, mapped, copied⟩ := inductionHypothesis between
      refine ⟨(name, copy) :: copies, after, ?_, .cons made copied⟩
      rw [mapProgress, resolveMember, Position.ofChild, made]
      dsimp only
      rw [mapped]

end

/-- Keywords are rewritten only in schemas: data without references that fits above the depth limit is
copied as it is, and the copy of a map of names has the same keys in the same order, with each value copied
as a schema. This holds inside of any references and with any copies at hand. -/
theorem resolveNode_confined (root : Json) (stack : List String) (depth : Nat) (progress : Progress) :
    (∀ value, HasNoReference value → FitsUnder (maxDepth + 1) depth value →
      resolveNode root stack .literal (maxDepth + 1 - depth) value progress = (value, progress)) ∧
    ∀ members : Members, referenceOf? members = none → depth ≤ maxDepth →
      ∃ copies after, resolveNode root stack .names (maxDepth + 1 - depth) (.object members) progress =
          (.object copies, after) ∧
        Members.keys copies = members.keys ∧
        CopiesNamed root stack (maxDepth - depth) members progress copies after := by
  constructor
  · intro value plain fits
    refine resolveNode_literal plain (?_ : FitsUnder (depth + (maxDepth + 1 - depth)) depth value) progress
    rwa [Nat.add_sub_cancel' (Nat.le_of_lt fits.opened_lt)]
  · intro members plain enough
    obtain ⟨copies, after, mapped, copied⟩ := exists_copiesNamed (maxDepth - depth) members progress
    refine ⟨copies, after, ?_, copied.keys_eq, copied⟩
    rw [Nat.succ_sub enough, resolveNode_of_none plain, mapped]
    rfl

/-- Members that are spelled like the keywords that copying rewrites. -/
def keywordMembers : Members :=
  [("type", .array [.text "cat", .text "null"]),
    ("allOf", .array [.object [("$ref", .null), ("enum", .array [.text "cat"])]]),
    ("example", .object [("oneOf", .array [.text "cat", .null])])]

/-- As data these members are kept even where there is no room for one more level, and as names they stay
in their order. -/
theorem resolveNode_confined_keywordMembers :
    HasNoReference (.object keywordMembers) ∧
      FitsUnder (maxDepth + 1) (maxDepth - 4) (.object keywordMembers) ∧
      resolveNode .null ["#"] .literal 5 (.object keywordMembers) ⟨[], 0⟩ =
        (.object keywordMembers, ⟨[], 0⟩) ∧
      ∃ copies after, resolveNode .null ["#"] .names 5 (.object keywordMembers) ⟨[], 0⟩ =
          (.object copies, after) ∧
        Members.keys copies = ["type", "allOf", "example"] ∧
        CopiesNamed .null ["#"] 4 keywordMembers ⟨[], 0⟩ copies after := by
  have plain : HasNoReference (.object keywordMembers) := by
    simp [keywordMembers, HasNoReference, Json.eachObject_object_iff, Json.eachObject_array_iff,
      referenceOf?, Json.asText?]
  have fits : FitsUnder (maxDepth + 1) (maxDepth - 4) (.object keywordMembers) := by
    simp [keywordMembers, Json.fitsUnder_object_iff, Json.fitsUnder_array_iff, Json.fitsUnder_text_iff,
      Json.fitsUnder_null_iff, maxDepth]
  have confined := resolveNode_confined .null ["#"] (maxDepth - 4) ⟨[], 0⟩
  exact ⟨plain, fits, confined.1 _ plain fits, confined.2 _ rfl (by decide)⟩

end ApiSurface.OpenApi
