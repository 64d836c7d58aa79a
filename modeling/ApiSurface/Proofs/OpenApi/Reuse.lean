/-
This file proves that reusing copies changes nothing. A copy that is kept was made without a cut, but
under another stack than the one under which it is used, so what has to be shown is that it meets no
reference of that stack. Suppose that it does, and take the outermost such reference. The expansion of
its target that is under way would be the one inside of the copy, because neither meets what is further
out. But that expansion has just met the reference of the copy, which a copy without cuts cannot meet
inside of itself.
-/

import ApiSurface.Proofs.OpenApi.Expansion

namespace ApiSurface.OpenApi

open Json (Members)

/-! ### The traversal, case by case -/

/-- What the traversal puts for a reference, where a copy may be reused. -/
def resolveTarget (root : Json) (stack : List String) (position : Position) (levels : Nat)
    (reference : String) (progress : Progress) : Json × Progress :=
  let usable := if position = .schema then usableCopy? progress reference levels else none
  match visit root stack reference, usable with
  | .external, _ => (unresolved reference, progress)
  | .cut, _ => (circular reference, { progress with cuts := progress.cuts + 1 })
  | _, some copy => (copy, progress)
  | .dangling, none => (unresolved reference, progress)
  | .follow target, none =>
    let (value, after) := resolveNode root (reference :: stack) position levels target progress
    if position = .schema && after.cuts == progress.cuts then
      (value, { after with copies := (reference, ⟨levels, value⟩) :: after.copies })
    else (value, after)

/-- The member of an object with its value copied. -/
def resolveMember (root : Json) (stack : List String) (position : Position) (levels : Nat)
    (member : String × Json) (progress : Progress) : (String × Json) × Progress :=
  let (value, progress) := resolveNode root stack (position.ofChild member.1) levels member.2 progress
  ((member.1, value), progress)

section

variable {root : Json} {stack : List String}

theorem resolveNode_of_none {members : Members} (plain : referenceOf? members = none)
    (position : Position) (levels : Nat) (progress : Progress) :
    resolveNode root stack position (levels + 1) (.object members) progress =
      let (copies, progress) := mapProgress (resolveMember root stack position levels) members progress
      (.object (if position = .schema then merge copies else copies), progress) := by
  rw [resolveNode, plain]
  rfl

theorem resolveTarget_eq (position : Position) (levels : Nat) (reference : String)
    (progress : Progress) :
    resolveTarget root stack position levels reference progress =
      match reference.toList with
      | '#' :: pointer =>
        if reference ∈ stack then
          (circular reference, { progress with cuts := progress.cuts + 1 })
        else
          match (if position = .schema then usableCopy? progress reference levels else none),
            root.pointer? (String.ofList pointer) with
          | some copy, _ => (copy, progress)
          | none, none => (unresolved reference, progress)
          | none, some target =>
            let (value, after) :=
              resolveNode root (reference :: stack) position levels target progress
            if position = .schema && after.cuts == progress.cuts then
              (value, { after with copies := (reference, ⟨levels, value⟩) :: after.copies })
            else (value, after)
      | _ => (unresolved reference, progress) := by
  unfold resolveTarget visit
  generalize (if position = .schema then usableCopy? progress reference levels else none) = usable
  generalize reference.toList = text
  split
  · show _ = if reference ∈ stack then _ else _
    by_cases inside : reference ∈ stack
    · rw [if_pos inside, if_pos inside]
    · rw [if_neg inside, if_neg inside]
      cases root.pointer? _ <;> cases usable <;> rfl
  · grind

theorem resolveNode_of_some {members : Members} {reference : String}
    (given : referenceOf? members = some reference) (position : Position) (levels : Nat)
    (progress : Progress) :
    resolveNode root stack position (levels + 1) (.object members) progress =
      let (target, progress) := resolveTarget root stack position levels reference progress
      match target with
      | .object target =>
        let (beside, progress) :=
          mapProgress (resolveMember root stack position levels) (siblings members) progress
        (.object (Members.insertAll target beside), progress)
      | target => (target, progress) := by
  rw [resolveNode, given, resolveTarget_eq]
  rfl

/-! ### Copies -/

/-- A copy that was made without a cut under some stack. -/
def Copy.IsValid (root : Json) (reference : String) (copy : Copy) : Prop :=
  ∃ target outer, visit root outer reference = .follow target ∧
    (survey root (reference :: outer) copy.levels target).cuts = 0 ∧
    copy.value = expandNode root (reference :: outer) .schema copy.levels target

/-- Every copy that is kept is valid. -/
def Progress.IsSound (root : Json) (progress : Progress) : Prop :=
  ∀ entry ∈ progress.copies, entry.2.IsValid root entry.1

theorem exists_of_usable {progress : Progress} (sound : progress.IsSound root)
    {position : Position} {reference : String} {levels : Nat} {value : Json}
    (usable : (if position = .schema then usableCopy? progress reference levels else none) =
      some value) :
    position = .schema ∧ ∃ copy : Copy, copy.IsValid root reference ∧ copy.levels ≤ levels ∧
      copy.value = value := by
  obtain ⟨schema, usable⟩ := Option.ite_none_right_eq_some.mp usable
  refine ⟨schema, ?_⟩
  unfold usableCopy? at usable
  split at usable
  · next copy found =>
    split at usable
    · next enough =>
      obtain ⟨before, after, whole, -⟩ := List.lookup_eq_some_iff.mp found
      have member : (reference, copy) ∈ progress.copies := by
        rw [whole]
        exact List.mem_append_right _ List.mem_cons_self
      exact ⟨copy, sound _ member, enough, Option.some.inj usable⟩
    · exact absurd usable (Option.some_ne_none value).symm
  · exact absurd usable (Option.some_ne_none value).symm

/-! ### Stacks -/

/-- What is met lies inside the target of every reference on the stack, expanded under those further
out. -/
def IsWithin (root : Json) (stack : List String) (levels : Nat) (met : List String) : Prop :=
  ∀ reference outer, reference :: outer <:+ stack →
    ∃ target more, visit root [] reference = .follow target ∧ levels ≤ more ∧
      met ⊆ (survey root (reference :: outer) more target).met

theorem IsWithin.mono {levels fewer : Nat} {met inner : List String}
    (within : IsWithin root stack levels met) (deeper : fewer ≤ levels) (inside : inner ⊆ met) :
    IsWithin root stack fewer inner := by
  intro reference outer suffix
  obtain ⟨target, more, found, enough, covers⟩ := within reference outer suffix
  exact ⟨target, more, found, Nat.le_trans deeper enough, List.Subset.trans inside covers⟩

/-- The target of a reference lies inside the targets on the stack and inside itself. -/
theorem IsWithin.cons {levels : Nat} {met : List String} {reference : String} {target : Json}
    (followed : visit root stack reference = .follow target)
    (within : IsWithin root stack levels met)
    (inside : (survey root (reference :: stack) levels target).met ⊆ met) :
    IsWithin root (reference :: stack) levels
      (survey root (reference :: stack) levels target).met := by
  intro other outer suffix
  rcases List.suffix_cons_iff.mp suffix with same | further
  · obtain ⟨rfl, rfl⟩ := List.cons.inj same
    refine ⟨target, levels, ?_, Nat.le_refl levels, List.Subset.refl _⟩
    rw [← visit_of_notMem (notMem_of_follow followed), followed]
  · exact within.mono (Nat.le_refl levels) inside other outer further

/-- Of the references on a stack that satisfy a condition, one is the outermost. -/
theorem exists_outermost (condition : String → Prop) {reference : String}
    (member : reference ∈ stack) (holds : condition reference) :
    ∃ outermost outer, outermost :: outer <:+ stack ∧ condition outermost ∧
      ∀ other ∈ outer, ¬condition other := by
  induction stack generalizing reference with
  | nil => exact absurd member List.not_mem_nil
  | cons first rest inductionHypothesis =>
    by_cases further : ∃ other ∈ rest, condition other
    · obtain ⟨other, inside, satisfied⟩ := further
      obtain ⟨outermost, outer, suffix, last⟩ := inductionHypothesis inside satisfied
      exact ⟨outermost, outer, suffix.trans (List.suffix_cons first rest), last⟩
    · have none : ∀ other ∈ rest, ¬condition other := fun other inside satisfied =>
        further ⟨other, inside, satisfied⟩
      rcases List.mem_cons.mp member with rfl | inside
      · exact ⟨reference, rest, List.suffix_refl _, holds, none⟩
      · exact absurd holds (none reference inside)

/-- A copy that may be used under a stack meets nothing that is on the stack. -/
theorem isClear_of_isWithin {reference : String} {outer : List String} {levels kept : Nat}
    {target : Json} {met : List String}
    (clean : (survey root (reference :: outer) kept target).cuts = 0) (enough : kept ≤ levels)
    (within : IsWithin root stack levels met) (here : reference ∈ met) :
    (survey root (reference :: outer) kept target).IsClear (reference :: stack) := by
  refine ⟨clean, fun other found inside => ?_⟩
  have apart := notMem_of_met clean found
  rcases List.mem_cons.mp inside with rfl | onStack
  · exact apart List.mem_cons_self
  obtain ⟨outermost, further, suffix, foundOutermost, last⟩ := exists_outermost
    (· ∈ (survey root (reference :: outer) kept target).met) onStack found
  obtain ⟨its, more, followed, most, covers⟩ := within outermost further suffix
  obtain ⟨elsewhere, below, deeper, uncut, smaller⟩ :=
    exists_survey_of_met clean foundOutermost followed
  -- The expansion of the outermost reference that is under way is the one inside of the copy.
  have clear : (survey root (outermost :: elsewhere) below its).IsClear (outermost :: further) := by
    refine ⟨uncut, fun next met inside => ?_⟩
    rcases List.mem_cons.mp inside with rfl | beyond
    · exact notMem_of_met uncut met List.mem_cons_self
    · exact last next beyond (smaller met)
  rw [survey_of_isClear clear (Nat.le_trans deeper (Nat.le_trans enough most))] at covers
  exact notMem_of_met clean (smaller (covers here)) List.mem_cons_self

/-! ### Agreement -/

/-- A step of the traversal gives the value and makes the cuts that it would without copies, and the
copies that it keeps are valid. -/
structure Agrees {Value : Type} (root : Json) (progress : Progress) (outcome : Value × Progress)
    (value : Value) (cuts : Nat) : Prop where
  value : outcome.1 = value
  cuts : outcome.2.cuts = progress.cuts + cuts
  sound : outcome.2.IsSound root

theorem agrees_mapProgress {Part Value : Type} {step : Part → Progress → Value × Progress}
    {value : Part → Value} {cuts : Part → Nat} {parts : List Part}
    (each : ∀ part ∈ parts, ∀ progress, progress.IsSound root →
      Agrees root progress (step part progress) (value part) (cuts part))
    {progress : Progress} (sound : progress.IsSound root) :
    Agrees root progress (mapProgress step parts progress) (parts.map value)
      (parts.map cuts).sum := by
  induction parts generalizing progress with
  | nil => exact ⟨rfl, rfl, sound⟩
  | cons part rest inductionHypothesis =>
    have first := each part List.mem_cons_self progress sound
    have later := inductionHypothesis
      (fun other member => each other (List.mem_cons_of_mem _ member)) first.sound
    refine ⟨?_, ?_, later.sound⟩
    · rw [List.map_cons, ← first.value, ← later.value]
      rfl
    · rw [List.map_cons, List.sum_cons, ← Nat.add_assoc, ← first.cuts, ← later.cuts]
      rfl

/-- What is put for a reference is what its target expands to, whether or not a copy is reused. -/
theorem agrees_resolveTarget {position : Position} {levels : Nat} {met : List String}
    (below : ∀ (inner : List String) (target : Json) (progress : Progress),
      progress.IsSound root → IsWithin root inner levels (survey root inner levels target).met →
      Agrees root progress (resolveNode root inner position levels target progress)
        (expandNode root inner position levels target) (survey root inner levels target).cuts)
    {reference : String} (within : IsWithin root stack levels met)
    (inside : ((visit root stack reference).survey reference
      (survey root (reference :: stack) levels)).met ⊆ met)
    {progress : Progress} (sound : progress.IsSound root) :
    Agrees root progress (resolveTarget root stack position levels reference progress)
      ((visit root stack reference).value reference
        (expandNode root (reference :: stack) position levels))
      ((visit root stack reference).survey reference
        (survey root (reference :: stack) levels)).cuts := by
  unfold resolveTarget
  cases visited : visit root stack reference with
  | external => exact ⟨rfl, rfl, sound⟩
  | cut => exact ⟨rfl, rfl, sound⟩
  | dangling =>
    cases usable : if position = .schema then usableCopy? progress reference levels else none with
    | none => exact ⟨rfl, rfl, sound⟩
    | some value =>
      obtain ⟨-, copy, ⟨target, outer, followed, -⟩, -⟩ := exists_of_usable sound usable
      rw [visit_of_notMem (notMem_of_follow followed),
        ← visit_of_notMem (notMem_of_dangling visited), visited] at followed
      exact Visit.noConfusion followed
  | follow target =>
    rw [visited] at inside
    cases usable : if position = .schema then usableCopy? progress reference levels else none with
    | none =>
      have made := below (reference :: stack) target progress sound
        (within.cons visited (List.Subset.trans (List.subset_cons_self reference _) inside))
      dsimp only
      generalize resolveNode root (reference :: stack) position levels target progress = outcome
        at made
      obtain ⟨value, after⟩ := outcome
      dsimp only
      split
      · next keep =>
        obtain ⟨schema, uncut⟩ := Bool.and_eq_true_iff.mp keep
        refine ⟨made.value, made.cuts, fun entry member => ?_⟩
        rcases List.mem_cons.mp member with rfl | further
        · have clean : (survey root (reference :: stack) levels target).cuts = 0 :=
            Nat.left_eq_add.mp ((beq_iff_eq.mp uncut).symm.trans made.cuts)
          refine ⟨target, stack, visited, clean, ?_⟩
          rw [← of_decide_eq_true schema]
          exact made.value
        · exact made.sound entry further
      · exact ⟨made.value, made.cuts, made.sound⟩
    | some value =>
      obtain ⟨schema, copy, ⟨kept, outer, followed, uncut, made⟩, enough, rfl⟩ :=
        exists_of_usable sound usable
      rw [visit_of_notMem (notMem_of_follow followed), ← visit_of_notMem (notMem_of_follow visited),
        visited] at followed
      obtain rfl := Visit.follow.inj followed
      have clear := isClear_of_isWithin uncut enough within (inside List.mem_cons_self)
      refine ⟨?_, ?_, sound⟩
      · rw [Visit.value, schema, expandNode_of_isClear clear enough, ← made]
      · rw [Visit.survey, survey_of_isClear clear enough, uncut]
        rfl

theorem agrees_resolveMember {position : Position} {levels : Nat} {member : String × Json}
    {progress : Progress} {value : Json} {cuts : Nat}
    (copied : Agrees root progress
      (resolveNode root stack (position.ofChild member.1) levels member.2 progress) value cuts) :
    Agrees root progress (resolveMember root stack position levels member progress)
      (member.1, value) cuts :=
  ⟨congrArg (Prod.mk member.1) copied.value, copied.cuts, copied.sound⟩

/-- The traversal gives what a document expands to. -/
theorem agrees_resolveNode (position : Position) (levels : Nat) (node : Json) {progress : Progress}
    (sound : progress.IsSound root)
    (within : IsWithin root stack levels (survey root stack levels node).met) :
    Agrees root progress (resolveNode root stack position levels node progress)
      (expandNode root stack position levels node) (survey root stack levels node).cuts := by
  induction levels generalizing stack position node progress with
  | zero => exact ⟨rfl, rfl, sound⟩
  | succ levels inductionHypothesis =>
    have children {members : Members}
        (inside : ∀ part ∈ members.map (fun member => survey root stack levels member.2),
          part.met ⊆ (survey root stack (levels + 1) node).met) :
        ∀ member ∈ members, ∀ progress, progress.IsSound root →
          Agrees root progress (resolveMember root stack position levels member progress)
            (member.1, expandNode root stack (position.ofChild member.1) levels member.2)
            (survey root stack levels member.2).cuts :=
      fun member here progress sound => agrees_resolveMember (inductionHypothesis _ member.2 sound
        (within.mono (Nat.le_succ levels) (inside _ (List.mem_map_of_mem here))))
    cases node with
    | object members =>
      cases given : referenceOf? members with
      | none =>
        rw [survey_of_none given] at children
        have copied := agrees_mapProgress (children Survey.met_subset_joined) sound
        rw [resolveNode_of_none given, expandNode_of_none given, survey_of_none given]
        refine ⟨?_, ?_, copied.sound⟩
        · rw [← copied.value]
        · rw [Survey.joined, List.map_map]
          exact copied.cuts
      | some reference =>
        rw [survey_of_some given] at within children
        have target := agrees_resolveTarget
          (fun inner target progress sound => inductionHypothesis position target sound)
          (within.mono (Nat.le_succ levels) (List.Subset.refl _))
          (Survey.met_subset_joined _ List.mem_cons_self) sound
        have object := isObject_target root stack position levels reference
        rw [resolveNode_of_some given, expandNode_of_some given, survey_of_some given, ← target.value]
        rw [← target.value] at object
        generalize resolveTarget root stack position levels reference progress = outcome
          at target object ⊢
        obtain ⟨value, after⟩ := outcome
        have made : after.cuts = _ := target.cuts
        cases value with
        | object inner =>
          have beside := agrees_mapProgress (children fun part here =>
            Survey.met_subset_joined part (List.mem_cons_of_mem _ (by rw [← object]; exact here)))
            target.sound
          refine ⟨by rw [← beside.value]; rfl, ?_, beside.sound⟩
          rw [Survey.overlaid, ← object, isObject, Json.asObject?, Option.isSome_some, if_pos rfl,
            Survey.joined, List.map_cons, List.sum_cons, List.map_map, ← Nat.add_assoc, ← made]
          exact beside.cuts
        | _ =>
          refine ⟨rfl, ?_, target.sound⟩
          rw [Survey.overlaid, ← object]
          exact made
    | array items =>
      have copied := agrees_mapProgress (fun item here progress sound =>
        inductionHypothesis position.ofItem item sound (within.mono (Nat.le_succ levels)
          (Survey.met_subset_joined _ (List.mem_map_of_mem here)))) sound
      refine ⟨?_, ?_, copied.sound⟩
      · rw [expandNode, ← copied.value]
        rfl
      · rw [survey, Survey.joined, List.map_map]
        exact copied.cuts
    | _ => exact ⟨rfl, rfl, sound⟩

end

theorem agrees_resolve (root : Json) :
    Agrees root ⟨[], 0⟩ (resolveNode root [] .schema (maxDepth + 1) root ⟨[], 0⟩) (expand root)
      (survey root [] (maxDepth + 1) root).cuts :=
  agrees_resolveNode .schema (maxDepth + 1) root (fun _ member => absurd member List.not_mem_nil)
    fun _ _ suffix => absurd (List.suffix_nil.mp suffix) (List.cons_ne_nil _ _)

/-- Copying a document gives the same whether or not copies of targets are reused. -/
theorem resolve_eq_expand (root : Json) : resolve root = expand root :=
  (agrees_resolve root).value

end ApiSurface.OpenApi
