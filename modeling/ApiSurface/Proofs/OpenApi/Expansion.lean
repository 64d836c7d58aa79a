/-
This file states what a document expands to when no copy is ever reused, and surveys an expansion: how
many cuts it makes and which references it meets. The survey does not depend on positions, because
merging keeps an object an object, and that is all that the traversal asks of a copied target.

An expansion without cuts is the same under every stack that holds none of the references it meets and
with any greater number of levels. This is why a copy can be reused at all.
-/

import ApiSurface.OpenApi.Resolution
import Mathlib.Algebra.GroupWithZero.Nat
import Mathlib.Data.List.Basic

namespace ApiSurface.OpenApi

open Json (Members)

/-! ### Visits -/

/-- What becomes of a reference that is met under a stack. -/
inductive Visit where
  /-- It leads out of the document. -/
  | external
  /-- Its target is being copied. -/
  | cut
  /-- It leads nowhere. -/
  | dangling
  /-- Its target is copied. -/
  | follow (target : Json)

/-- Looks a reference up under a stack. -/
def visit (root : Json) (stack : List String) (reference : String) : Visit :=
  match reference.toList with
  | '#' :: pointer =>
    if reference ∈ stack then .cut
    else match root.pointer? (String.ofList pointer) with
      | some target => .follow target
      | none => .dangling
  | _ => .external

section

variable {root : Json} {stack : List String} {reference : String}

theorem visit_of_notMem (fresh : reference ∉ stack) :
    visit root stack reference = visit root [] reference := by
  unfold visit
  split
  · rw [if_neg fresh, if_neg List.not_mem_nil]
  · rfl

theorem notMem_of_follow {target : Json} (followed : visit root stack reference = .follow target) :
    reference ∉ stack := by
  intro inside
  unfold visit at followed
  split at followed
  · rw [if_pos inside] at followed
    exact Visit.noConfusion followed
  · exact Visit.noConfusion followed

theorem notMem_of_dangling (lost : visit root stack reference = .dangling) : reference ∉ stack := by
  intro inside
  unfold visit at lost
  split at lost
  · rw [if_pos inside] at lost
    exact Visit.noConfusion lost
  · exact Visit.noConfusion lost

theorem mem_of_cut (cut : visit root stack reference = .cut) : reference ∈ stack := by
  unfold visit at cut
  split at cut
  · split at cut
    · next inside => exact inside
    · split at cut <;> exact Visit.noConfusion cut
  · exact Visit.noConfusion cut

theorem visit_of_external {document : Json} (outside : visit root stack reference = .external)
    (other : List String) : visit document other reference = .external := by
  unfold visit at outside ⊢
  split at outside
  · split at outside
    · exact Visit.noConfusion outside
    · split at outside <;> exact Visit.noConfusion outside
  · rfl

end

/-! ### Expansion -/

/-- What stands for a reference, when `expanded` copies its target. -/
def Visit.value (reference : String) (expanded : Json → Json) : Visit → Json
  | .external => unresolved reference
  | .cut => circular reference
  | .dangling => unresolved reference
  | .follow target => expanded target

/-- A copied target with the copies of the members beside the reference laid over it. -/
def overlay (target : Json) (beside : Members) : Json :=
  match target with
  | .object target => .object (Members.insertAll target beside)
  | target => target

/-- Copies a value at a position, where each reference is copied from its target every time that it is
met. -/
def expandNode (root : Json) (stack : List String) (position : Position) :
    (levels : Nat) → Json → Json
  | 0, _ => circular (stack.head?.getD "#")
  | levels + 1, node =>
    match node with
    | .object members =>
      let child (member : String × Json) :=
        (member.1, expandNode root stack (position.ofChild member.1) levels member.2)
      match referenceOf? members with
      | none =>
        .object (if position = .schema then merge (members.map child) else members.map child)
      | some reference =>
        overlay
          ((visit root stack reference).value reference
            (expandNode root (reference :: stack) position levels))
          ((siblings members).map child)
    | .array items => .array (items.map (expandNode root stack position.ofItem levels))
    | scalar => scalar

/-- Copies a document with every reference replaced and every composition merged, where no copy is
ever reused. -/
def expand (root : Json) : Json :=
  expandNode root [] .schema (maxDepth + 1) root

/-! ### Surveys -/

/-- What an expansion does, apart from the value that it gives. -/
structure Survey where
  /-- Whether it gives an object. -/
  isObject : Bool
  /-- The number of cuts. -/
  cuts : Nat
  /-- The references into the document that it meets. -/
  met : List String

/-- The survey of a value that consists of parts. -/
def Survey.joined (isObject : Bool) (parts : List Survey) : Survey where
  isObject := isObject
  cuts := (parts.map Survey.cuts).sum
  met := parts.flatMap Survey.met

/-- The survey of what stands for a reference, when `surveyed` surveys its target. -/
def Visit.survey (reference : String) (surveyed : Json → Survey) : Visit → Survey
  | .external => ⟨true, 0, []⟩
  | .cut => ⟨true, 1, [reference]⟩
  | .dangling => ⟨true, 0, [reference]⟩
  | .follow target => { surveyed target with met := reference :: (surveyed target).met }

/-- The survey of a reference and the members beside it, which count only if its target is an object. -/
def Survey.overlaid (target : Survey) (beside : List Survey) : Survey :=
  .joined target.isObject (target :: if target.isObject then beside else [])

/-- Surveys the expansion of a value. -/
def survey (root : Json) (stack : List String) : (levels : Nat) → Json → Survey
  | 0, _ => ⟨true, 1, []⟩
  | levels + 1, node =>
    match node with
    | .object members =>
      let child (member : String × Json) := survey root stack levels member.2
      match referenceOf? members with
      | none => .joined true (members.map child)
      | some reference =>
        .overlaid
          ((visit root stack reference).survey reference (survey root (reference :: stack) levels))
          ((siblings members).map child)
    | .array items => .joined false (items.map (survey root stack levels))
    | _ => .joined false []

section

variable {root : Json} {stack : List String}

theorem expandNode_of_none {members : Members} (plain : referenceOf? members = none)
    (position : Position) (levels : Nat) :
    expandNode root stack position (levels + 1) (.object members) =
      .object (
        let copies := members.map fun member =>
          (member.1, expandNode root stack (position.ofChild member.1) levels member.2)
        if position = .schema then merge copies else copies) := by
  rw [expandNode, plain]

theorem expandNode_of_some {members : Members} {reference : String}
    (given : referenceOf? members = some reference) (position : Position) (levels : Nat) :
    expandNode root stack position (levels + 1) (.object members) =
      overlay
        ((visit root stack reference).value reference
          (expandNode root (reference :: stack) position levels))
        ((siblings members).map fun member =>
          (member.1, expandNode root stack (position.ofChild member.1) levels member.2)) := by
  rw [expandNode, given]

theorem survey_of_none {members : Members} (plain : referenceOf? members = none) (levels : Nat) :
    survey root stack (levels + 1) (.object members) =
      .joined true (members.map fun member => survey root stack levels member.2) := by
  rw [survey, plain]

theorem survey_of_some {members : Members} {reference : String}
    (given : referenceOf? members = some reference) (levels : Nat) :
    survey root stack (levels + 1) (.object members) =
      .overlaid
        ((visit root stack reference).survey reference (survey root (reference :: stack) levels))
        ((siblings members).map fun member => survey root stack levels member.2) := by
  rw [survey, given]

theorem Survey.cuts_joined_eq_zero_iff {isObject : Bool} {parts : List Survey} :
    (joined isObject parts).cuts = 0 ↔ ∀ part ∈ parts, part.cuts = 0 := by
  rw [joined, List.sum_eq_zero_iff_forall_eq_nat]
  exact List.forall_mem_map

theorem Survey.mem_met_joined_iff {isObject : Bool} {parts : List Survey} {reference : String} :
    reference ∈ (joined isObject parts).met ↔ ∃ part ∈ parts, reference ∈ part.met :=
  List.mem_flatMap

theorem Survey.met_subset_joined {isObject : Bool} {parts : List Survey} (part : Survey)
    (member : part ∈ parts) : part.met ⊆ (joined isObject parts).met :=
  fun _ met => mem_met_joined_iff.mpr ⟨part, member, met⟩

/-- The survey of a value joins those of values inside of it, one level deeper, and that of the
reference that it is, if it is one. -/
theorem survey_eq_joined (root : Json) (stack : List String) (levels : Nat) (node : Json) :
    ∃ isObject parts, survey root stack (levels + 1) node = .joined isObject parts ∧
      ∀ part ∈ parts, (∃ inner, part = survey root stack levels inner) ∨
        ∃ reference, part = (visit root stack reference).survey reference
          (survey root (reference :: stack) levels) := by
  have children (members : Members) : ∀ part ∈ members.map fun member =>
      survey root stack levels member.2, ∃ inner, part = survey root stack levels inner := by
    intro part member
    obtain ⟨child, -, rfl⟩ := List.mem_map.mp member
    exact ⟨child.2, rfl⟩
  cases node with
  | object members =>
    rw [survey]
    cases referenceOf? members with
    | none => exact ⟨_, _, rfl, fun part member => .inl (children members part member)⟩
    | some reference =>
      refine ⟨_, _, rfl, fun part member => ?_⟩
      rcases List.mem_cons.mp member with rfl | beside
      · exact .inr ⟨reference, rfl⟩
      · split at beside
        · exact .inl (children _ part beside)
        · exact absurd beside List.not_mem_nil
  | array items =>
    refine ⟨_, _, rfl, fun part member => .inl ?_⟩
    obtain ⟨item, -, rfl⟩ := List.mem_map.mp member
    exact ⟨item, rfl⟩
  | _ => exact ⟨_, _, rfl, fun part member => absurd member List.not_mem_nil⟩

/-- An expansion without cuts meets nothing that is on its stack. -/
theorem notMem_of_met {levels : Nat} {node : Json} (clean : (survey root stack levels node).cuts = 0)
    {reference : String} (met : reference ∈ (survey root stack levels node).met) :
    reference ∉ stack := by
  induction levels generalizing stack node with
  | zero => exact absurd clean Nat.one_ne_zero
  | succ levels inductionHypothesis =>
    obtain ⟨isObject, parts, whole, each⟩ := survey_eq_joined root stack levels node
    rw [whole] at clean met
    obtain ⟨part, member, inside⟩ := Survey.mem_met_joined_iff.mp met
    have uncut := Survey.cuts_joined_eq_zero_iff.mp clean part member
    rcases each part member with ⟨inner, rfl⟩ | ⟨other, rfl⟩
    · exact inductionHypothesis uncut inside
    · cases visited : visit root stack other with
      | external =>
        rw [visited] at inside
        exact absurd inside List.not_mem_nil
      | cut =>
        rw [visited] at uncut
        exact absurd uncut Nat.one_ne_zero
      | dangling =>
        rw [visited] at inside
        rw [List.mem_singleton.mp inside]
        exact notMem_of_dangling visited
      | follow target =>
        rw [visited] at inside uncut
        rcases List.mem_cons.mp inside with rfl | below
        · exact notMem_of_follow visited
        · exact List.not_mem_of_not_mem_cons (inductionHypothesis uncut below)

/-- A reference with a target that an expansion without cuts meets is itself expanded without cuts
inside of it. -/
theorem exists_survey_of_met {levels : Nat} {node : Json}
    (clean : (survey root stack levels node).cuts = 0) {reference : String}
    (met : reference ∈ (survey root stack levels node).met) {target : Json}
    (found : visit root [] reference = .follow target) :
    ∃ outer below, below ≤ levels ∧ (survey root (reference :: outer) below target).cuts = 0 ∧
      (survey root (reference :: outer) below target).met ⊆ (survey root stack levels node).met := by
  induction levels generalizing stack node with
  | zero => exact absurd clean Nat.one_ne_zero
  | succ levels inductionHypothesis =>
    obtain ⟨isObject, parts, whole, each⟩ := survey_eq_joined root stack levels node
    rw [whole] at clean met ⊢
    obtain ⟨part, member, inside⟩ := Survey.mem_met_joined_iff.mp met
    have uncut := Survey.cuts_joined_eq_zero_iff.mp clean part member
    have within : part.met ⊆ (Survey.joined isObject parts).met :=
      Survey.met_subset_joined part member
    rcases each part member with ⟨inner, rfl⟩ | ⟨other, rfl⟩
    · obtain ⟨outer, below, deeper, uncutBelow, metBelow⟩ := inductionHypothesis uncut inside
      exact ⟨outer, below, Nat.le_succ_of_le deeper, uncutBelow, List.Subset.trans metBelow within⟩
    · cases visited : visit root stack other with
      | external =>
        rw [visited] at inside
        exact absurd inside List.not_mem_nil
      | cut =>
        rw [visited] at uncut
        exact absurd uncut Nat.one_ne_zero
      | dangling =>
        rw [visited] at inside
        rw [List.mem_singleton.mp inside, ← visit_of_notMem (notMem_of_dangling visited),
          visited] at found
        exact Visit.noConfusion found
      | follow inner =>
        rw [visited] at inside uncut within
        have metInner := List.Subset.trans (List.subset_cons_self other _) within
        rcases List.mem_cons.mp inside with rfl | below
        · rw [← visit_of_notMem (notMem_of_follow visited), visited] at found
          obtain rfl := Visit.follow.inj found
          exact ⟨stack, levels, Nat.le_succ levels, uncut, metInner⟩
        · obtain ⟨outer, depth, deeper, uncutBelow, metBelow⟩ := inductionHypothesis uncut below
          exact ⟨outer, depth, Nat.le_succ_of_le deeper, uncutBelow,
            List.Subset.trans metBelow metInner⟩

/-! ### Objects -/

/-- Whether a value is an object. -/
def isObject (value : Json) : Bool :=
  value.asObject?.isSome

theorem isObject_overlay (target : Json) (beside : Members) :
    isObject (overlay target beside) = isObject target := by
  cases target <;> rfl

/-- What lies beside a reference matters only if its target is an object. -/
theorem overlay_congr {target : Json} {first second : Members}
    (same : isObject target = true → first = second) :
    overlay target first = overlay target second := by
  cases target with
  | object members => rw [same rfl]
  | _ => rfl

theorem isObject_value {reference : String} {expanded : Json → Json} {surveyed : Json → Survey}
    {visited : Visit}
    (same : ∀ target, visited = .follow target →
      isObject (expanded target) = (surveyed target).isObject) :
    isObject (visited.value reference expanded) = (visited.survey reference surveyed).isObject := by
  cases visited with
  | follow target => exact same target rfl
  | _ => rfl

/-- The survey knows which expansions are objects, at every position. -/
theorem isObject_expandNode (position : Position) (levels : Nat) (node : Json) :
    isObject (expandNode root stack position levels node) =
      (survey root stack levels node).isObject := by
  induction levels generalizing stack position node with
  | zero => rfl
  | succ levels inductionHypothesis =>
    cases node with
    | object members =>
      cases given : referenceOf? members with
      | none =>
        rw [expandNode_of_none given, survey_of_none given]
        rfl
      | some reference =>
        rw [expandNode_of_some given, survey_of_some given, isObject_overlay]
        exact isObject_value fun target _ => inductionHypothesis position target
    | _ => rfl

theorem isObject_target (root : Json) (stack : List String) (position : Position) (levels : Nat)
    (reference : String) :
    isObject ((visit root stack reference).value reference
        (expandNode root (reference :: stack) position levels)) =
      ((visit root stack reference).survey reference
        (survey root (reference :: stack) levels)).isObject :=
  isObject_value fun target _ => isObject_expandNode position levels target

/-! ### Other stacks and levels -/

/-- A survey is clear of a stack if nothing is cut and no reference that is met is on the stack. -/
def Survey.IsClear (found : Survey) (stack : List String) : Prop :=
  found.cuts = 0 ∧ ∀ reference ∈ found.met, reference ∉ stack

theorem Survey.isClear_joined_iff {isObject : Bool} {parts : List Survey} :
    (joined isObject parts).IsClear stack ↔ ∀ part ∈ parts, part.IsClear stack := by
  constructor
  · rintro ⟨uncut, apart⟩ part member
    exact ⟨cuts_joined_eq_zero_iff.mp uncut part member, fun reference met =>
      apart reference (mem_met_joined_iff.mpr ⟨part, member, met⟩)⟩
  · intro each
    refine ⟨cuts_joined_eq_zero_iff.mpr fun part member => (each part member).1,
      fun reference met => ?_⟩
    obtain ⟨part, member, inside⟩ := mem_met_joined_iff.mp met
    exact (each part member).2 reference inside

theorem Survey.isClear_overlaid_iff {target : Survey} {beside : List Survey} :
    (target.overlaid beside).IsClear stack ↔
      target.IsClear stack ∧ (target.isObject = true → ∀ part ∈ beside, part.IsClear stack) := by
  rw [overlaid, isClear_joined_iff, List.forall_mem_cons]
  cases target.isObject <;> simp

section

variable {other : List String}

/-- A reference whose survey is clear of another stack is looked up alike under that stack. -/
theorem visit_of_isClear {reference : String} {levels : Nat}
    (clear : ((visit root stack reference).survey reference
      (survey root (reference :: stack) levels)).IsClear other) :
    visit root other reference = visit root stack reference := by
  cases visited : visit root stack reference with
  | external => exact visit_of_external visited other
  | cut =>
    rw [visited] at clear
    exact absurd clear.1 Nat.one_ne_zero
  | dangling =>
    rw [visited] at clear
    rw [visit_of_notMem (clear.2 reference List.mem_cons_self), ← visited,
      visit_of_notMem (notMem_of_dangling visited)]
  | follow target =>
    rw [visited] at clear
    rw [visit_of_notMem (clear.2 reference List.mem_cons_self), ← visited,
      visit_of_notMem (notMem_of_follow visited)]

/-- The target of such a reference is clear of that stack with the reference on top. -/
theorem isClear_target {reference : String} {levels : Nat} {target : Json}
    (clear : ((Visit.follow target).survey reference
      (survey root (reference :: stack) levels)).IsClear other) :
    (survey root (reference :: stack) levels target).IsClear (reference :: other) := by
  refine ⟨clear.1, fun below met inside => ?_⟩
  rcases List.mem_cons.mp inside with rfl | further
  · exact notMem_of_met clear.1 met List.mem_cons_self
  · exact clear.2 below (List.mem_cons_of_mem _ met) further

/-- An expansion that is clear of a stack is surveyed alike under that stack, with any greater number
of levels. -/
theorem survey_of_isClear {levels more : Nat} {node : Json}
    (clear : (survey root stack levels node).IsClear other) (enough : levels ≤ more) :
    survey root other more node = survey root stack levels node := by
  induction levels generalizing stack other more node with
  | zero => exact absurd clear.1 Nat.one_ne_zero
  | succ levels inductionHypothesis =>
    obtain ⟨more, rfl⟩ : ∃ fewer, more = fewer + 1 := Nat.exists_eq_add_one.mpr
      (Nat.lt_of_lt_of_le (Nat.succ_pos levels) enough)
    have deeper := Nat.le_of_succ_le_succ enough
    have children {members : Members}
        (each : ∀ part ∈ members.map (fun member => survey root stack levels member.2),
          part.IsClear other) :
        members.map (fun member => survey root other more member.2) =
          members.map fun member => survey root stack levels member.2 :=
      List.map_congr_left fun member inside =>
        inductionHypothesis (each _ (List.mem_map_of_mem inside)) deeper
    cases node with
    | object members =>
      cases given : referenceOf? members with
      | none =>
        rw [survey_of_none given, Survey.isClear_joined_iff] at clear
        rw [survey_of_none given, survey_of_none given, children clear]
      | some reference =>
        rw [survey_of_some given, Survey.isClear_overlaid_iff] at clear
        rw [survey_of_some given, survey_of_some given, visit_of_isClear clear.1]
        have target : (visit root stack reference).survey reference
            (survey root (reference :: other) more) =
            (visit root stack reference).survey reference
              (survey root (reference :: stack) levels) := by
          cases visited : visit root stack reference with
          | follow target =>
            rw [visited] at clear
            rw [Visit.survey, Visit.survey, inductionHypothesis (isClear_target clear.1) deeper]
          | _ => rfl
        rw [target, Survey.overlaid, Survey.overlaid]
        split
        · next object => rw [children (clear.2 object)]
        · rfl
    | array items =>
      rw [survey, Survey.isClear_joined_iff] at clear
      rw [survey, survey]
      exact congrArg _ (List.map_congr_left fun item inside =>
        inductionHypothesis (clear _ (List.mem_map_of_mem inside)) deeper)
    | _ => rfl

/-- An expansion that is clear of a stack gives the same value under that stack, with any greater
number of levels. -/
theorem expandNode_of_isClear {levels more : Nat} {node : Json}
    (clear : (survey root stack levels node).IsClear other) (enough : levels ≤ more)
    (position : Position) :
    expandNode root other position more node = expandNode root stack position levels node := by
  induction levels generalizing stack other position more node with
  | zero => exact absurd clear.1 Nat.one_ne_zero
  | succ levels inductionHypothesis =>
    obtain ⟨more, rfl⟩ : ∃ fewer, more = fewer + 1 := Nat.exists_eq_add_one.mpr
      (Nat.lt_of_lt_of_le (Nat.succ_pos levels) enough)
    have deeper := Nat.le_of_succ_le_succ enough
    have children {members : Members}
        (each : ∀ part ∈ members.map (fun member => survey root stack levels member.2),
          part.IsClear other) :
        members.map (fun member =>
            (member.1, expandNode root other (position.ofChild member.1) more member.2)) =
          members.map fun member =>
            (member.1, expandNode root stack (position.ofChild member.1) levels member.2) :=
      List.map_congr_left fun member inside => congrArg (Prod.mk member.1)
        (inductionHypothesis (each _ (List.mem_map_of_mem inside)) deeper _)
    cases node with
    | object members =>
      cases given : referenceOf? members with
      | none =>
        rw [survey_of_none given, Survey.isClear_joined_iff] at clear
        rw [expandNode_of_none given, expandNode_of_none given, children clear]
      | some reference =>
        rw [survey_of_some given, Survey.isClear_overlaid_iff] at clear
        rw [expandNode_of_some given, expandNode_of_some given, visit_of_isClear clear.1]
        have target : (visit root stack reference).value reference
            (expandNode root (reference :: other) position more) =
            (visit root stack reference).value reference
              (expandNode root (reference :: stack) position levels) := by
          cases visited : visit root stack reference with
          | follow target =>
            rw [visited] at clear
            exact inductionHypothesis (isClear_target clear.1) deeper position
          | _ => rfl
        rw [target]
        refine overlay_congr fun object => children (clear.2 ?_)
        rw [← object, isObject_target]
    | array items =>
      rw [survey, Survey.isClear_joined_iff] at clear
      rw [expandNode, expandNode]
      exact congrArg _ (List.map_congr_left fun item inside =>
        inductionHypothesis (clear _ (List.mem_map_of_mem inside)) deeper _)
    | _ => rfl

end

end

end ApiSurface.OpenApi
