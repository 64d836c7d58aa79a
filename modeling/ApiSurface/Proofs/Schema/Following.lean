/-
This file proves that a check depends only on where references lead. A reference goes from the root of a
document along the steps that it names. The rules of a schema look up the references that it holds and no
others, so two ways to follow references that agree on those find the same violations.
-/

import ApiSurface.Schema.Validator

namespace ApiSurface.Schema

open Json (Members)

/-! ### Steps -/

/-- The names of the steps that a reference goes from the root of a document. -/
def stepsOf? (reference : String) : Option (List String) := do
  let fragment ← Text.dropLead? ['#'] reference.toList
  Json.pointerSteps? (← Text.percentText? fragment)

theorem target?_eq (document : Json) (reference : String) :
    target? document reference = (stepsOf? reference).bind document.follow? := by
  unfold target? stepsOf? Json.pointer?
  cases Text.dropLead? ['#'] reference.toList with
  | none => rfl
  | some fragment => cases hpercent : Text.percentText? fragment <;> simp [hpercent]

/-! ### References that a schema holds -/

section

variable {first second : String → Json → List Violation}

mutual

/-- The violations of a schema depend only on the references that it holds. -/
theorem violations_congr (schema : Schema) (value : Json)
    (agree : ∀ reference ∈ references schema, first reference = second reference) :
    violations first schema value = violations second schema value := by
  match schema with
  | .always _ => rfl
  | .rules _ all => exact violationsOfAll_congr all value agree

theorem violationsOfAll_congr (all : List Rule) (value : Json)
    (agree : ∀ reference ∈ referencesOfAll all, first reference = second reference) :
    violationsOfAll first all value = violationsOfAll second all value := by
  match all with
  | [] => rfl
  | rule :: rest =>
    obtain ⟨here, further⟩ := List.forall_mem_append.mp agree
    rw [violationsOfAll, violationsOfAll, ruleViolations_congr rule value here,
      violationsOfAll_congr rest value further]

theorem ruleViolations_congr (rule : Rule) (value : Json)
    (agree : ∀ reference ∈ ruleReferences rule, first reference = second reference) :
    ruleViolations first rule value = ruleViolations second rule value := by
  match rule with
  | .type _ | .oneOfValues _ | .exactly _ | .bound _ _ | .multipleOf _ | .atLeast _ _ | .atMost _ _
  | .distinctItems | .required _ | .requiredBeside _ | .noProperties => rfl
  | .properties declared | .onlyProperties declared =>
    cases value with
    | object members =>
      rw [ruleViolations, ruleViolations, declaredViolations_congr declared members agree]
    | _ => rfl
  | .otherProperties declared others =>
    obtain ⟨known, further⟩ := List.forall_mem_append.mp agree
    cases value with
    | object members =>
      rw [ruleViolations, ruleViolations, declaredViolations_congr declared members known]
      simp only [fun member => violations_congr others member further]
    | _ => rfl
  | .propertyNames names =>
    cases value with
    | object members =>
      rw [ruleViolations, ruleViolations]
      simp only [fun member => violations_congr names member agree]
    | _ => rfl
  | .schemasBeside schemas =>
    cases value with
    | object members => exact besideViolations_congr schemas members _ agree
    | _ => rfl
  | .firstItems schemas =>
    cases value with
    | array items => exact itemViolations_congr schemas 0 items agree
    | _ => rfl
  | .items skipped schema =>
    cases value with
    | array items =>
      rw [ruleViolations, ruleViolations]
      simp only [fun item => violations_congr schema item agree]
    | _ => rfl
  | .contains schema least most =>
    cases value with
    | array items =>
      rw [ruleViolations, ruleViolations]
      simp only [fun item => violations_congr schema item agree]
    | _ => rfl
  | .allOf schemas | .anyOf schemas | .oneOf schemas =>
    rw [ruleViolations, ruleViolations, eachViolations_congr schemas value agree]
  | .negation schema => rw [ruleViolations, ruleViolations, violations_congr schema value agree]
  | .conditional test yes no =>
    obtain ⟨asked, otherwise⟩ := List.forall_mem_append.mp agree
    obtain ⟨tested, fulfilled⟩ := List.forall_mem_append.mp asked
    rw [ruleViolations, ruleViolations, violations_congr test value tested,
      violations_congr yes value fulfilled, violations_congr no value otherwise]
  | .reference target =>
    rw [ruleViolations, ruleViolations, agree target List.mem_cons_self]

theorem eachViolations_congr (schemas : List Schema) (value : Json)
    (agree : ∀ reference ∈ referencesOfList schemas, first reference = second reference) :
    eachViolations first schemas value = eachViolations second schemas value := by
  match schemas with
  | [] => rfl
  | schema :: rest =>
    obtain ⟨here, further⟩ := List.forall_mem_append.mp agree
    rw [eachViolations, eachViolations, violations_congr schema value here,
      eachViolations_congr rest value further]

theorem declaredViolations_congr (declared : List (String × Schema)) (members : Members)
    (agree : ∀ reference ∈ referencesOfTable declared, first reference = second reference) :
    declaredViolations first declared members = declaredViolations second declared members := by
  match declared with
  | [] => rfl
  | (name, schema) :: rest =>
    obtain ⟨here, further⟩ := List.forall_mem_append.mp agree
    rw [declaredViolations, declaredViolations, declaredViolations_congr rest members further]
    simp only [fun member => violations_congr schema member here]

theorem besideViolations_congr (schemas : List (String × Schema)) (members : Members) (value : Json)
    (agree : ∀ reference ∈ referencesOfTable schemas, first reference = second reference) :
    besideViolations first schemas members value = besideViolations second schemas members value := by
  match schemas with
  | [] => rfl
  | (name, schema) :: rest =>
    obtain ⟨here, further⟩ := List.forall_mem_append.mp agree
    rw [besideViolations, besideViolations, violations_congr schema value here,
      besideViolations_congr rest members value further]

theorem itemViolations_congr (schemas : List Schema) (position : Nat) (items : List Json)
    (agree : ∀ reference ∈ referencesOfList schemas, first reference = second reference) :
    itemViolations first schemas position items = itemViolations second schemas position items := by
  match schemas, items with
  | [], _ => rfl
  | _ :: _, [] => rfl
  | schema :: rest, item :: others =>
    obtain ⟨here, further⟩ := List.forall_mem_append.mp agree
    rw [itemViolations, itemViolations, violations_congr schema item here,
      itemViolations_congr rest (position + 1) others further]

end

end

end ApiSurface.Schema
