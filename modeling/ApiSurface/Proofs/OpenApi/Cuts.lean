/-
This file proves that cycles are cut exactly where there is one. No mark of a copy is put for a cycle unless
the copy lies inside of an expansion of the same reference. And if the document can be expanded in full
within the depth limit, nothing is cut, so each reference is replaced by the full copy of its target.

That a full expansion never meets a reference inside of its own target is a matter of counting: whatever
number of levels suffices for the target suffices for all that it holds, so it would suffice for the
reference itself, which takes one more.
-/

import ApiSurface.Json.Value
import ApiSurface.Proofs.OpenApi.Kept
import ApiSurface.Proofs.OpenApi.Marks
import Mathlib.Data.Set.Finite.Lattice
import Mathlib.Order.WellFounded

namespace ApiSurface.OpenApi

open Json (Members SitsBelow)

/-! ### Full expansion -/

/-- The full expansion of a value is an object, so members beside a reference are laid over it. -/
inductive EndsInObject (root : Json) : Json → Prop
  /-- An object that is no reference. -/
  | plain {members : Members} (plain : referenceOf? members = none) : EndsInObject root (.object members)
  /-- A reference that leads nowhere. -/
  | lost {members : Members} {reference : String} (given : referenceOf? members = some reference)
    (lost : ∀ target, visit root [] reference ≠ .follow target) : EndsInObject root (.object members)
  /-- A reference whose target ends in an object. -/
  | followed {members : Members} {reference : String} {target : Json}
    (given : referenceOf? members = some reference) (followed : visit root [] reference = .follow target)
    (ends : EndsInObject root target) : EndsInObject root (.object members)

/-- A number of levels suffices to expand a value in full, where each reference takes one. -/
def FitsWithin (root : Json) : Nat → Json → Prop
  | 0, _ => False
  | levels + 1, node =>
    match node with
    | .object members =>
      match referenceOf? members with
      | none => ∀ member ∈ members, FitsWithin root levels member.2
      | some reference =>
        (∀ target, visit root [] reference = .follow target → FitsWithin root levels target) ∧
          (EndsInObject root (.object members) →
            ∀ member ∈ siblings members, FitsWithin root levels member.2)
    | .array items => ∀ item ∈ items, FitsWithin root levels item
    | _ => True

/-- The full expansion of a value at a position, if the levels suffice for it: each reference is replaced by
the full expansion of its target, with the members beside it laid over, and nothing is ever cut. -/
def fullCopy (root : Json) (position : Position) : (levels : Nat) → Json → Json
  | 0, _ => .null
  | levels + 1, node =>
    match node with
    | .object members =>
      let child (member : String × Json) :=
        (member.1, fullCopy root (position.ofChild member.1) levels member.2)
      match referenceOf? members with
      | none =>
        .object (if position = .schema then merge (members.map child) else members.map child)
      | some reference =>
        overlay ((visit root [] reference).value reference (fullCopy root position levels))
          ((siblings members).map child)
    | .array items => .array (items.map (fullCopy root position.ofItem levels))
    | scalar => scalar

section

variable {root : Json} {levels : Nat} {members : Members} {reference : String}

theorem fitsWithin_of_none (plain : referenceOf? members = none) :
    FitsWithin root (levels + 1) (.object members) ↔
      ∀ member ∈ members, FitsWithin root levels member.2 := by
  rw [FitsWithin, plain]

theorem fitsWithin_of_some (given : referenceOf? members = some reference) :
    FitsWithin root (levels + 1) (.object members) ↔
      (∀ target, visit root [] reference = .follow target → FitsWithin root levels target) ∧
        (EndsInObject root (.object members) →
          ∀ member ∈ siblings members, FitsWithin root levels member.2) := by
  rw [FitsWithin, given]

theorem fullCopy_of_none (plain : referenceOf? members = none) (position : Position) :
    fullCopy root position (levels + 1) (.object members) =
      .object (
        let copies := members.map fun member =>
          (member.1, fullCopy root (position.ofChild member.1) levels member.2)
        if position = .schema then merge copies else copies) := by
  rw [fullCopy, plain]

theorem fullCopy_of_some (given : referenceOf? members = some reference) (position : Position) :
    fullCopy root position (levels + 1) (.object members) =
      overlay ((visit root [] reference).value reference (fullCopy root position levels))
        ((siblings members).map fun member =>
          (member.1, fullCopy root (position.ofChild member.1) levels member.2)) := by
  rw [fullCopy, given]

end

/-! ### Acyclic documents -/

/-- The target of one reference holds another one. -/
def Refers (root : Json) (first second : String) : Prop :=
  ∃ target depth members, visit root [] first = .follow target ∧
    SitsBelow target depth (.object members) ∧ referenceOf? members = some second

/-- No reference leads back to itself. -/
def IsAcyclic (root : Json) : Prop :=
  ∀ reference, ¬ Relation.TransGen (Refers root) reference reference

/-- The references in a value. -/
def references (value : Json) : Set String :=
  {reference | ∃ depth members, SitsBelow value depth (.object members) ∧
    referenceOf? members = some reference}

section

variable {root : Json}

theorem FitsWithin.mono {levels more : Nat} {node : Json} (fits : FitsWithin root levels node)
    (least : levels ≤ more) : FitsWithin root more node := by
  induction levels generalizing more node with
  | zero => exact fits.elim
  | succ levels inductionHypothesis =>
    obtain ⟨more, rfl⟩ := Nat.exists_eq_add_of_le' (Nat.lt_of_lt_of_le (Nat.succ_pos levels) least)
    have fewer := Nat.le_of_succ_le_succ least
    cases node with
    | object members =>
      cases given : referenceOf? members with
      | none =>
        rw [fitsWithin_of_none given] at fits ⊢
        exact fun member there => inductionHypothesis (fits member there) fewer
      | some reference =>
        rw [fitsWithin_of_some given] at fits ⊢
        exact ⟨fun target followed => inductionHypothesis (fits.1 target followed) fewer,
          fun ends member there => inductionHypothesis (fits.2 ends member there) fewer⟩
    | array items => exact fun item there => inductionHypothesis (fits item there) fewer
    | _ => trivial

/-- If some levels suffice for each of several parts, then as many suffice for all of them. -/
theorem exists_fitsWithin_all {Part : Type} {parts : List Part} {value : Part → Json}
    (each : ∀ part ∈ parts, ∃ levels, FitsWithin root levels (value part)) :
    ∃ levels, ∀ part ∈ parts, FitsWithin root levels (value part) := by
  induction parts with
  | nil => exact ⟨0, fun _ there => absurd there List.not_mem_nil⟩
  | cons part rest inductionHypothesis =>
    rw [List.forall_mem_cons] at each
    obtain ⟨⟨own, fits⟩, others⟩ := each
    obtain ⟨levels, all⟩ := inductionHypothesis others
    exact ⟨max own levels, List.forall_mem_cons.mpr ⟨fits.mono (Nat.le_max_left own levels),
      fun other there => (all other there).mono (Nat.le_max_right own levels)⟩⟩

theorem references_inside {value inner : Json} {depth : Nat} (below : SitsBelow value depth inner) :
    references inner ⊆ references value := by
  rintro reference ⟨further, members, there, given⟩
  exact ⟨_, members, below.trans there, given⟩

/-- A value has a full expansion if the targets of its references have one. -/
theorem exists_fitsWithin_of_targets (node : Json)
    (targets : ∀ reference ∈ references node, ∀ target, visit root [] reference = .follow target →
      ∃ levels, FitsWithin root levels target) : ∃ levels, FitsWithin root levels node := by
  match node with
  | .object members =>
    have each : ∃ levels, ∀ member ∈ members, FitsWithin root levels member.2 := by
      refine exists_fitsWithin_all fun member inside => ?_
      have below := SitsBelow.member inside (.here member.2)
      have smaller := Json.sizeOf_lt_of_mem inside
      exact exists_fitsWithin_of_targets member.2 fun reference further =>
        targets reference (references_inside below further)
    obtain ⟨levels, all⟩ := each
    cases given : referenceOf? members with
    | none =>
      exact ⟨levels + 1, (fitsWithin_of_none given).mpr all⟩
    | some reference =>
      have own : ∃ levels, ∀ target, visit root [] reference = .follow target →
          FitsWithin root levels target := by
        cases visited : visit root [] reference with
        | follow target =>
          obtain ⟨levels, fits⟩ := targets reference ⟨0, members, .here _, given⟩ target visited
          exact ⟨levels, fun other same => Visit.follow.inj same ▸ fits⟩
        | _ => exact ⟨0, fun _ same => Visit.noConfusion same⟩
      obtain ⟨targetLevels, targetFits⟩ := own
      exact ⟨max targetLevels levels + 1, (fitsWithin_of_some given).mpr
        ⟨fun target followed => (targetFits target followed).mono (Nat.le_max_left _ _),
          fun _ member there => (all member (List.mem_filter.mp there).1).mono
            (Nat.le_max_right _ _)⟩⟩
  | .array items =>
    have each : ∃ levels, ∀ item ∈ items, FitsWithin root levels item := by
      refine exists_fitsWithin_all fun item there => ?_
      have below := SitsBelow.item there (.here item)
      have smaller := List.sizeOf_lt_of_mem there
      exact exists_fitsWithin_of_targets item fun reference further =>
        targets reference (references_inside below further)
    obtain ⟨levels, all⟩ := each
    exact ⟨levels + 1, all⟩
  | .null | .bool _ | .number _ | .text _ => exact ⟨1, trivial⟩
termination_by sizeOf node

theorem finite_references (value : Json) : (references value).Finite := by
  match value with
  | .object members =>
    have own : {reference | referenceOf? members = some reference}.Finite :=
      Set.Subsingleton.finite fun _ first _ second => Option.some.inj (first.symm.trans second)
    have each : (⋃ member ∈ members, references member.2).Finite :=
      members.finite_toSet.biUnion fun member inside =>
        have smaller := Json.sizeOf_lt_of_mem inside
        finite_references member.2
    refine (own.union each).subset ?_
    rintro reference ⟨depth, inner, below, given⟩
    cases below with
    | here => exact .inl given
    | member inside further =>
      exact .inr (Set.mem_biUnion inside ⟨_, inner, further, given⟩)
  | .array items =>
    have each : (⋃ item ∈ items, references item).Finite :=
      items.finite_toSet.biUnion fun item inside =>
        have smaller := List.sizeOf_lt_of_mem inside
        finite_references item
    refine each.subset ?_
    rintro reference ⟨depth, inner, below, given⟩
    cases below with
    | item inside further => exact Set.mem_biUnion inside ⟨_, inner, further, given⟩
  | .null | .bool _ | .number _ | .text _ =>
    refine Set.finite_empty.subset ?_
    rintro reference ⟨depth, inner, below, given⟩
    cases below
termination_by sizeOf value

/-- A document without cycles has a full expansion. -/
theorem exists_fitsWithin_of_isAcyclic (acyclic : IsAcyclic root) :
    ∃ levels, FitsWithin root levels root := by
  have finite : Finite (references root) := finite_references root
  -- A chain of references in the document cannot go on forever, because it never meets one again.
  have wellFounded : WellFounded fun second first : references root =>
      Relation.TransGen (Refers root) first.1 second.1 :=
    @Finite.wellFounded_of_trans_of_irrefl _ finite _ ⟨fun _ _ _ later earlier => earlier.trans later⟩
      ⟨fun reference => acyclic reference.1⟩
  have targets (reference : references root) : ∀ target, visit root [] reference.1 = .follow target →
      ∃ levels, FitsWithin root levels target := by
    induction reference using wellFounded.induction with
    | h reference inductionHypothesis =>
      intro target followed
      obtain ⟨depth, below⟩ := exists_sitsBelow_of_follow followed
      refine exists_fitsWithin_of_targets target fun other further => ?_
      obtain ⟨deeper, members, there, given⟩ := further
      exact inductionHypothesis ⟨other, references_inside below ⟨deeper, members, there, given⟩⟩
        (.single ⟨target, deeper, members, followed, there, given⟩)
  exact exists_fitsWithin_of_targets root fun reference inside => targets ⟨reference, inside⟩

end

/-! ### Copies without cuts -/

section

variable {root : Json} {stack : List String} {levels : Nat} {node : Json}

/-- A reference that is not cut leads to the same whatever the walk is inside of. -/
theorem visit_of_uncut {reference : String} (uncut : visit root stack reference ≠ .cut) :
    visit root [] reference = visit root stack reference := by
  cases visited : visit root stack reference with
  | external => exact visit_of_external visited []
  | cut => exact absurd visited uncut
  | dangling => rw [← visited, visit_of_notMem (notMem_of_dangling visited)]
  | follow target => rw [← visited, visit_of_notMem (notMem_of_follow visited)]

theorem uncut_of_cuts {reference : String} {surveyed : Json → Survey}
    (clean : ((visit root stack reference).survey reference surveyed).cuts = 0) :
    visit root stack reference ≠ .cut := by
  intro cut
  rw [cut] at clean
  exact Nat.one_ne_zero clean

theorem Survey.cuts_overlaid_eq_zero_iff {target : Survey} {beside : List Survey} :
    (target.overlaid beside).cuts = 0 ↔
      target.cuts = 0 ∧ (target.isObject = true → ∀ part ∈ beside, part.cuts = 0) := by
  rw [overlaid, cuts_joined_eq_zero_iff, List.forall_mem_cons]
  cases target.isObject <;> simp

/-- What stands for a reference is an object if the full expansion ends in one. -/
theorem isObject_visited_iff {members : Members} {reference : String} {surveyed : Json → Survey}
    (given : referenceOf? members = some reference) (uncut : visit root stack reference ≠ .cut)
    (each : ∀ target, visit root stack reference = .follow target →
      ((surveyed target).isObject = true ↔ EndsInObject root target)) :
    ((visit root stack reference).survey reference surveyed).isObject = true ↔
      EndsInObject root (.object members) := by
  have same := visit_of_uncut uncut
  cases visited : visit root stack reference with
  | cut => exact absurd visited uncut
  | external | dangling =>
    rw [visited] at same
    refine iff_of_true rfl (.lost given fun target followed => ?_)
    rw [same] at followed
    exact Visit.noConfusion followed
  | follow target =>
    rw [visited] at same
    refine (each target visited).trans ⟨.followed given same, fun ends => ?_⟩
    cases ends with
    | plain plain =>
      rw [given] at plain
      cases plain
    | lost other lost =>
      obtain rfl := Option.some.inj (given.symm.trans other)
      exact absurd same (lost target)
    | followed other followed ends =>
      obtain rfl := Option.some.inj (given.symm.trans other)
      obtain rfl := Visit.follow.inj (same.symm.trans followed)
      exact ends

/-- A copy without cuts is an object if the full expansion ends in one. -/
theorem isObject_iff_endsInObject (clean : (survey root stack levels node).cuts = 0) :
    (survey root stack levels node).isObject = true ↔ EndsInObject root node := by
  induction levels generalizing stack node with
  | zero => exact absurd clean Nat.one_ne_zero
  | succ levels inductionHypothesis =>
    cases node with
    | object members =>
      cases given : referenceOf? members with
      | none =>
        rw [survey_of_none given]
        exact iff_of_true rfl (.plain given)
      | some reference =>
        rw [survey_of_some given] at clean ⊢
        have uncut := (Survey.cuts_overlaid_eq_zero_iff.mp clean).1
        refine isObject_visited_iff given (uncut_of_cuts uncut) fun target visited => ?_
        rw [visited] at uncut
        exact inductionHypothesis uncut
    | _ => exact iff_of_false Bool.false_ne_true nofun

/-- A copy without cuts is the full expansion. -/
theorem expandNode_eq_fullCopy (position : Position) (clean : (survey root stack levels node).cuts = 0) :
    expandNode root stack position levels node = fullCopy root position levels node := by
  induction levels generalizing stack position node with
  | zero => exact absurd clean Nat.one_ne_zero
  | succ levels inductionHypothesis =>
    have children {members : Members}
        (each : ∀ part ∈ members.map (fun member => survey root stack levels member.2), part.cuts = 0) :
        members.map (fun member =>
            (member.1, expandNode root stack (position.ofChild member.1) levels member.2)) =
          members.map fun member =>
            (member.1, fullCopy root (position.ofChild member.1) levels member.2) :=
      List.map_congr_left fun member inside => congrArg (Prod.mk member.1)
        (inductionHypothesis _ (each _ (List.mem_map_of_mem inside)))
    cases node with
    | object members =>
      cases given : referenceOf? members with
      | none =>
        rw [survey_of_none given] at clean
        rw [expandNode_of_none given, fullCopy_of_none given,
          children (Survey.cuts_joined_eq_zero_iff.mp clean)]
      | some reference =>
        rw [survey_of_some given] at clean
        obtain ⟨uncut, beside⟩ := Survey.cuts_overlaid_eq_zero_iff.mp clean
        have target : (visit root stack reference).value reference
            (expandNode root (reference :: stack) position levels) =
            (visit root [] reference).value reference (fullCopy root position levels) := by
          rw [visit_of_uncut (uncut_of_cuts uncut)]
          cases visited : visit root stack reference with
          | follow inner =>
            rw [visited] at uncut
            exact inductionHypothesis position uncut
          | _ => rfl
        rw [expandNode_of_some given, fullCopy_of_some given, ← target]
        refine overlay_congr fun object => children (beside ?_)
        rw [← isObject_target root stack position, object]
    | array items =>
      have each := Survey.cuts_joined_eq_zero_iff.mp clean
      exact congrArg Json.array (List.map_congr_left fun item inside =>
        inductionHypothesis _ (each _ (List.mem_map_of_mem inside)))
    | _ => rfl

/-! ### Cuts -/

/-- A value lies in the full expansion of every target that is being copied. -/
def LiesInside (root : Json) (stack : List String) (node : Json) : Prop :=
  ∀ reference ∈ stack, ∃ target, visit root [] reference = .follow target ∧
    ∀ levels, FitsWithin root levels target → ∃ fewer ≤ levels, FitsWithin root fewer node

theorem LiesInside.step {inner : Json} (inside : LiesInside root stack node)
    (below : ∀ levels, FitsWithin root (levels + 1) node → FitsWithin root levels inner) :
    LiesInside root stack inner := by
  intro reference there
  obtain ⟨target, followed, fits⟩ := inside reference there
  refine ⟨target, followed, fun levels enough => ?_⟩
  obtain ⟨fewer, least, sufficient⟩ := fits levels enough
  cases fewer with
  | zero => exact sufficient.elim
  | succ fewer => exact ⟨fewer, Nat.le_of_succ_le least, below fewer sufficient⟩

theorem LiesInside.enter {reference : String} {target : Json} (inside : LiesInside root stack target)
    (followed : visit root [] reference = .follow target) :
    LiesInside root (reference :: stack) target :=
  List.forall_mem_cons.mpr
    ⟨⟨target, followed, fun levels fits => ⟨levels, Nat.le_refl levels, fits⟩⟩, inside⟩

/-- A reference inside of its own target has no full expansion. -/
theorem not_fitsWithin_of_mem {members : Members} {reference : String}
    (given : referenceOf? members = some reference) (inside : LiesInside root stack (.object members))
    (met : reference ∈ stack) : ¬ FitsWithin root levels (.object members) := by
  obtain ⟨target, followed, fewerSuffice⟩ := inside reference met
  induction levels using Nat.strong_induction_on with
  | h levels inductionHypothesis =>
    intro fits
    cases levels with
    | zero => exact fits
    | succ levels =>
      -- What suffices for the target suffices for the reference, which takes one level more than it.
      obtain ⟨fewer, least, sufficient⟩ :=
        fewerSuffice levels (((fitsWithin_of_some given).mp fits).1 target followed)
      exact inductionHypothesis fewer (Nat.lt_succ_of_le least) sufficient

/-- Nothing is cut if the levels suffice for the full expansion. -/
theorem cuts_survey_of_fitsWithin (inside : LiesInside root stack node)
    (fits : FitsWithin root levels node) : (survey root stack levels node).cuts = 0 := by
  induction levels generalizing stack node with
  | zero => exact fits.elim
  | succ levels inductionHypothesis =>
    cases node with
    | object members =>
      cases given : referenceOf? members with
      | none =>
        rw [survey_of_none given]
        refine Survey.cuts_joined_eq_zero_iff.mpr (List.forall_mem_map.mpr fun member there => ?_)
        exact inductionHypothesis
          (inside.step fun _ enough => (fitsWithin_of_none given).mp enough member there)
          ((fitsWithin_of_none given).mp fits member there)
      | some reference =>
        have expanded := (fitsWithin_of_some given).mp fits
        have uncut : visit root stack reference ≠ .cut :=
          fun cut => not_fitsWithin_of_mem given inside (mem_of_cut cut) fits
        have target : ((visit root stack reference).survey reference
            (survey root (reference :: stack) levels)).cuts = 0 := by
          cases visited : visit root stack reference with
          | cut => exact absurd visited uncut
          | external | dangling => rfl
          | follow inner =>
            have followed := (visit_of_uncut uncut).trans visited
            have below := inside.step fun _ enough =>
              ((fitsWithin_of_some given).mp enough).1 inner followed
            exact inductionHypothesis (below.enter followed) (expanded.1 inner followed)
        rw [survey_of_some given]
        refine Survey.cuts_overlaid_eq_zero_iff.mpr
          ⟨target, fun object => List.forall_mem_map.mpr fun member there => ?_⟩
        -- The members beside the reference count only if the target is an object, uncut as it is.
        have ends : EndsInObject root (.object members) := by
          refine (isObject_visited_iff given uncut fun inner visited => ?_).mp object
          rw [visited] at target
          exact isObject_iff_endsInObject target
        exact inductionHypothesis
          (inside.step fun _ enough => ((fitsWithin_of_some given).mp enough).2 ends member there)
          (expanded.2 ends member there)
    | array items =>
      refine Survey.cuts_joined_eq_zero_iff.mpr (List.forall_mem_map.mpr fun item there => ?_)
      exact inductionHypothesis (inside.step fun _ enough => enough item there) (fits item there)
    | _ => rfl

/-- If nothing is cut, the levels suffice for the full expansion. -/
theorem fitsWithin_of_cuts_survey (clean : (survey root stack levels node).cuts = 0) :
    FitsWithin root levels node := by
  induction levels generalizing stack node with
  | zero => exact absurd clean Nat.one_ne_zero
  | succ levels inductionHypothesis =>
    cases node with
    | object members =>
      cases given : referenceOf? members with
      | none =>
        rw [survey_of_none given] at clean
        exact (fitsWithin_of_none given).mpr fun member there => inductionHypothesis
          (Survey.cuts_joined_eq_zero_iff.mp clean _ (List.mem_map_of_mem there))
      | some reference =>
        have ends := isObject_iff_endsInObject clean
        rw [survey_of_some given] at clean ends
        obtain ⟨uncut, beside⟩ := Survey.cuts_overlaid_eq_zero_iff.mp clean
        refine (fitsWithin_of_some given).mpr ⟨fun target followed => ?_, fun object member there => ?_⟩
        · rw [visit_of_uncut (uncut_of_cuts uncut)] at followed
          rw [followed] at uncut
          exact inductionHypothesis uncut
        · exact inductionHypothesis (beside (ends.mpr object) _ (List.mem_map_of_mem there))
    | array items =>
      exact fun item there => inductionHypothesis
        (Survey.cuts_joined_eq_zero_iff.mp clean _ (List.mem_map_of_mem there))
    | _ => trivial

end

/-- A document is copied without a cut if and only if the depth limit suffices for its full expansion. -/
theorem cuts_resolve_eq_zero_iff (root : Json) :
    (resolveNode root [] .schema (maxDepth + 1) root ⟨[], 0⟩).2.cuts = 0 ↔
      FitsWithin root (maxDepth + 1) root := by
  rw [(agrees_resolve root).cuts, Nat.zero_add]
  exact ⟨fitsWithin_of_cuts_survey, cuts_survey_of_fitsWithin fun _ there => absurd there List.not_mem_nil⟩

/-- Cutting is exact. Every mark of a copied document is written in the document, or stands for a reference
inside of an expansion of the same reference, or lies where the depth limit is reached. If the depth limit
suffices for the full expansion, nothing is cut, and the copy is the full expansion. -/
theorem resolve_cuts_exactly (root : Json) :
    (∀ path mark, Marks (resolve root) path mark →
      ∃ trail, Surfaces trail path ∧ Origin root [] root (maxDepth + 1) trail mark) ∧
    (FitsWithin root (maxDepth + 1) root →
      (resolveNode root [] .schema (maxDepth + 1) root ⟨[], 0⟩).2.cuts = 0 ∧
        resolve root = fullCopy root .schema (maxDepth + 1) root) := by
  have copied : resolve root = expandNode root [] .schema (maxDepth + 1) root := (agrees_resolve root).value
  rw [copied]
  refine ⟨fun path mark => isAccounted_of_marks, fun fits => ?_⟩
  have clean := cuts_survey_of_fitsWithin (fun _ there => absurd there List.not_mem_nil) fits
  exact ⟨(cuts_resolve_eq_zero_iff root).mpr fits, expandNode_eq_fullCopy .schema clean⟩

/-- A document with a reference in the composition that it points at. -/
def selfComposedDocument : Json :=
  .object [("a", .object [("title", .text "A"), ("allOf", .array [.object [("$ref", .text "#/a")]])])]

/-- A document in which two references point at one target, beside one of which there is a member. -/
def sharedDocument : Json :=
  .object [("a", .object [("type", .text "string")]),
    ("b", .array [.object [("$ref", .text "#/a")],
      .object [("$ref", .text "#/a"), ("title", .text "B")]])]

/-- The mark of the first document has moved into the schema that the composition belongs to. Nothing is
cut in the second one, although its target is reached twice. -/
theorem resolve_cuts_exactly_selfComposedDocument :
    Marks (resolve selfComposedDocument) [.member "a"] (.text "#/a") ∧
      (∃ trail, Surfaces trail [.member "a"] ∧
        Origin selfComposedDocument [] selfComposedDocument (maxDepth + 1) trail (.text "#/a")) ∧
      FitsWithin sharedDocument (maxDepth + 1) sharedDocument ∧
      (resolveNode sharedDocument [] .schema (maxDepth + 1) sharedDocument ⟨[], 0⟩).2.cuts = 0 ∧
      resolve sharedDocument = fullCopy sharedDocument .schema (maxDepth + 1) sharedDocument := by
  have marks : Marks (resolve selfComposedDocument) [.member "a"] (.text "#/a") := by
    have copied : resolve selfComposedDocument = .object [("a", .object [("title", .text "A"),
        ("type", .text "object"), (circularKey, .text "#/a")])] := rfl
    rw [copied]
    exact .member List.mem_cons_self (.here (by simp))
  have fits : FitsWithin sharedDocument (maxDepth + 1) sharedDocument :=
    (cuts_resolve_eq_zero_iff sharedDocument).mp rfl
  exact ⟨marks, (resolve_cuts_exactly selfComposedDocument).1 _ _ marks, fits,
    (resolve_cuts_exactly sharedDocument).2 fits⟩

end ApiSurface.OpenApi
