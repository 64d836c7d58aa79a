/-
This file tells two copies of one value apart by what can make a difference. Copies made in two documents
are equal if every reference that is met leads to the same in both. What stands under a key of a copy is a
copy of what stands there in the value, unless merging touches the key, so a value is found at the same
place in a document and in its copy.
-/

import ApiSurface.Proofs.Json.Distinct
import ApiSurface.Proofs.OpenApi.Expansion
import ApiSurface.Proofs.OpenApi.Merging

namespace ApiSurface.OpenApi

open Json (Members)

/-! ### Two documents -/

section

variable {first second : Json}

theorem visit_congr {reference : String}
    (alike : visit first [] reference = visit second [] reference) (stack : List String) :
    visit first stack reference = visit second stack reference := by
  by_cases inside : reference ∈ stack
  · unfold visit
    split
    · rw [if_pos inside, if_pos inside]
    · rfl
  · rw [visit_of_notMem inside, visit_of_notMem inside, alike]

theorem Survey.mem_met_overlaid_iff {target : Survey} {beside : List Survey} {reference : String} :
    reference ∈ (target.overlaid beside).met ↔
      reference ∈ target.met ∨ (target.isObject = true ∧ ∃ part ∈ beside, reference ∈ part.met) := by
  rw [overlaid, mem_met_joined_iff]
  cases target.isObject <;> simp

/-- A value is copied alike in two documents if every reference that is met leads to the same in both. -/
theorem expandNode_congr {stack : List String} {levels : Nat} {node : Json}
    (alike : ∀ reference ∈ (survey first stack levels node).met,
      visit first [] reference = visit second [] reference) (position : Position) :
    expandNode first stack position levels node = expandNode second stack position levels node := by
  induction levels generalizing stack position node with
  | zero => rfl
  | succ levels inductionHypothesis =>
    have children {members : Members} (each : ∀ member ∈ members,
        ∀ reference ∈ (survey first stack levels member.2).met,
          visit first [] reference = visit second [] reference) :
        members.map (fun member =>
            (member.1, expandNode first stack (position.ofChild member.1) levels member.2)) =
          members.map fun member =>
            (member.1, expandNode second stack (position.ofChild member.1) levels member.2) :=
      List.map_congr_left fun member inside => congrArg (Prod.mk member.1)
        (inductionHypothesis (each member inside) _)
    cases node with
    | object members =>
      cases given : referenceOf? members with
      | none =>
        rw [survey_of_none given] at alike
        rw [expandNode_of_none given, expandNode_of_none given, children fun member inside reference met =>
          alike reference (Survey.met_subset_joined _ (List.mem_map_of_mem inside) met)]
      | some reference =>
        rw [survey_of_some given] at alike
        have target : (visit first stack reference).value reference
            (expandNode first (reference :: stack) position levels) =
            (visit second stack reference).value reference
              (expandNode second (reference :: stack) position levels) := by
          have met (other : String) (inside : other ∈ ((visit first stack reference).survey reference
              (survey first (reference :: stack) levels)).met) :=
            alike other (Survey.mem_met_overlaid_iff.mpr (.inl inside))
          cases visited : visit first stack reference with
          | external => rw [visit_of_external visited stack, Visit.value, Visit.value]
          | cut | dangling =>
            rw [visited] at met
            rw [← visit_congr (met reference List.mem_cons_self) stack, visited, Visit.value, Visit.value]
          | follow target =>
            rw [visited] at met
            rw [← visit_congr (met reference List.mem_cons_self) stack, visited]
            exact inductionHypothesis
              (fun other inside => met other (List.mem_cons_of_mem reference inside)) position
        rw [expandNode_of_some given, expandNode_of_some given, target]
        -- what is beside a reference is met only if its target is copied to an object
        refine overlay_congr fun object => children fun member inside other met => alike other ?_
        refine Survey.mem_met_overlaid_iff.mpr (.inr ⟨?_, _, List.mem_map_of_mem inside, met⟩)
        rw [← isObject_target, target, object]
    | array items =>
      rw [survey] at alike
      rw [expandNode, expandNode]
      exact congrArg _ (List.map_congr_left fun item inside => inductionHypothesis
        (fun reference met =>
          alike reference (Survey.met_subset_joined _ (List.mem_map_of_mem inside) met)) _)
    | _ => rfl

end

/-! ### What stands under a key -/

section

variable {root : Json} {stack : List String}

/-- The copies of the members of an object. -/
def copiedMembers (root : Json) (stack : List String) (position : Position) (levels : Nat)
    (members : Members) : Members :=
  members.map fun member =>
    (member.1, expandNode root stack (position.ofChild member.1) levels member.2)

theorem keys_copiedMembers (position : Position) (levels : Nat) (members : Members) :
    (copiedMembers root stack position levels members).keys = members.keys := by
  rw [copiedMembers, Members.keys, List.map_map]
  rfl

theorem get?_copiedMembers (position : Position) (levels : Nat) (members : Members) (key : String) :
    (copiedMembers root stack position levels members).get? key =
      (members.get? key).map (expandNode root stack (position.ofChild key) levels) :=
  Keyed.lookup_map fun key => expandNode root stack (position.ofChild key) levels

theorem nodup_keys_siblings {members : Members} (distinct : members.keys.Nodup) :
    (siblings members).keys.Nodup :=
  distinct.sublist (List.filter_sublist.map Prod.fst)

/-- Under a keyword that merging leaves alone stands a copy of what stands there in the value, if the
copy of the value is an object at all. -/
theorem get?_expandNode {position : Position} {levels : Nat} {members : Members}
    (distinct : members.keys.Nodup) {key : String} {value : Json}
    (held : members.get? key = some value) (notMerged : key ∉ mergedKeywords)
    (notReference : key ≠ "$ref")
    (object : isObject (expandNode root stack position (levels + 1) (.object members)) = true) :
    (expandNode root stack position (levels + 1) (.object members)).get? key =
      some (expandNode root stack (position.ofChild key) levels value) := by
  cases given : referenceOf? members with
  | none =>
    have copied : (copiedMembers root stack position levels members).get? key =
        some (expandNode root stack (position.ofChild key) levels value) := by
      rw [get?_copiedMembers, held, Option.map_some]
    rw [← keys_copiedMembers position levels] at distinct
    rw [expandNode_of_none given]
    show Members.get? (if position = .schema then merge (copiedMembers root stack position levels members)
      else copiedMembers root stack position levels members) key = _
    split
    · exact (keeps_merge distinct notMerged).kept _ copied
    · exact copied
  | some reference =>
    have beside : (siblings members).get? key = some value := by
      rw [← held]
      exact @Keyed.lookup_filter String _ Json _ _ (· != "$ref") (bne_iff_ne.mpr notReference)
    have copied : (copiedMembers root stack position levels (siblings members)).get? key =
        some (expandNode root stack (position.ofChild key) levels value) := by
      rw [get?_copiedMembers, beside, Option.map_some]
    have others := nodup_keys_siblings distinct
    rw [← keys_copiedMembers position levels] at others
    rw [expandNode_of_some given, isObject_overlay] at object
    rw [expandNode_of_some given]
    cases target : (visit root stack reference).value reference
      (expandNode root (reference :: stack) position levels) with
    | object copies =>
      show Members.get? (Members.insertAll copies
        (copiedMembers root stack position levels (siblings members))) key = _
      rw [Members.get?_insertAll, Members.get?_reverse others, copied, Option.some_or]
    | _ =>
      rw [target] at object
      cases object

/-- What stands in a value under one key after the other. -/
def under? (value : Json) : List String → Option Json
  | [] => some value
  | key :: rest => (value.get? key).bind fun inner => under? inner rest

theorem under?_append (value : Json) (keys rest : List String) :
    under? value (keys ++ rest) = (under? value keys).bind fun inner => under? inner rest := by
  induction keys generalizing value with
  | nil => rfl
  | cons key others inductionHypothesis =>
    rw [List.cons_append, under?, under?]
    cases value.get? key with
    | none => rfl
    | some inner => exact inductionHypothesis inner

theorem under?_single (value : Json) (key : String) : under? value [key] = value.get? key := by
  rw [under?]
  cases value.get? key <;> rfl

theorem hasDistinctKeys_of_under? {value inner : Json} {keys : List String}
    (distinct : value.HasDistinctKeys) (found : under? value keys = some inner) :
    inner.HasDistinctKeys := by
  induction keys generalizing value with
  | nil => exact Option.some.inj found ▸ distinct
  | cons key rest inductionHypothesis =>
    obtain ⟨next, there, further⟩ := Option.bind_eq_some_iff.mp found
    exact inductionHypothesis (distinct.of_get? there) further

/-- What stands in a copy under keywords that merging leaves alone is a copy of what stands there in the
value. -/
theorem eq_of_under?_expandNode {keys : List String} (notMerged : ∀ key ∈ keys, key ∉ mergedKeywords)
    (noReference : "$ref" ∉ keys) {position : Position} {levels : Nat} {node value copy : Json}
    (distinct : node.HasDistinctKeys) (held : under? node keys = some value)
    (stands : under? (expandNode root stack position (levels + keys.length) node) keys = some copy) :
    copy = expandNode root stack (keys.foldl Position.ofChild position) levels value := by
  induction keys generalizing position node with
  | nil =>
    obtain rfl := Option.some.inj held
    exact (Option.some.inj stands).symm
  | cons key rest inductionHypothesis =>
    obtain ⟨inner, found, further⟩ := Option.bind_eq_some_iff.mp held
    obtain ⟨copied, there, stands⟩ := Option.bind_eq_some_iff.mp stands
    cases node with
    | object members =>
      obtain ⟨reference, others⟩ := not_or.mp (List.mem_cons.not.mp noReference)
      rw [List.length_cons, ← Nat.add_assoc] at there
      have object : isObject
          (expandNode root stack position (levels + rest.length + 1) (.object members)) = true := by
        cases copy : expandNode root stack position (levels + rest.length + 1) (.object members) with
        | object copies => rfl
        | _ => rw [copy] at there; cases there
      rw [get?_expandNode distinct.nodup_keys found (notMerged key List.mem_cons_self)
        (Ne.symm reference) object] at there
      obtain rfl := Option.some.inj there
      exact inductionHypothesis (fun other inside => notMerged other (List.mem_cons_of_mem key inside))
        others (distinct.of_get? found) further stands
    | _ => cases found

/-- A copied object of which merging leaves the only member alone. -/
theorem expandNode_single (position : Position) (levels : Nat) {key : String} (value : Json)
    (notMerged : key ∉ mergedKeywords) (noReference : key ≠ "$ref") :
    expandNode root stack position (levels + 1) (.object [(key, value)]) =
      .object [(key, expandNode root stack (position.ofChild key) levels value)] := by
  have absent (held : Json) {other : String} (different : other ≠ key) :
      Members.get? [(key, held)] other = none := by
    rw [Members.get?_cons, if_neg different, Members.get?_nil]
  have plain : referenceOf? [(key, value)] = none := by
    rw [referenceOf?, absent value noReference.symm, Option.bind_none]
  rw [expandNode_of_none plain]
  refine congrArg _ (ite_eq_right_iff.mpr fun _ => merge_eq_self fun keyword merged => ?_)
  exact absent _ fun same => notMerged (same ▸ merged)

end

end ApiSurface.OpenApi
