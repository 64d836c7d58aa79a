/-
This file proves what every merge of compositions keeps. Merging only moves values towards the root, and
every key of its result was the key of a merged object or is one of a few marks. So a rule on the keys of
single objects that allows keys to be collected in this way holds of the result as well, and nothing in
it sits deeper than before.
-/

import ApiSurface.Proofs.Json.Nesting
import ApiSurface.Proofs.OpenApi.MergeInvariant
import ApiSurface.Proofs.OpenApi.Reuse

namespace ApiSurface.OpenApi

open Json (Members SitsBelow)

/-! ### Rules on keys -/

/-- The keys that copying and merging make up. -/
def markKeys : List String :=
  ["type", "nullable", "required", circularKey, unresolvedKey]

/-- A rule on the keys of an object that still holds when keys are left out or reordered, and when a new
key joins them that the rule allows in another object. -/
structure IsKeyRule (rule : List String → Prop) : Prop where
  /-- Fewer keys follow the rule as well, in any order. -/
  subperm : ∀ {keys fewer}, rule keys → fewer.Subperm keys → rule fewer
  /-- A new key may come from another object. -/
  concat : ∀ {keys others key}, rule keys → rule others → key ∈ others → key ∉ keys →
    rule (keys ++ [key])
  /-- The marks are allowed. -/
  mark : ∀ key ∈ markKeys, rule [key]

/-- A value in which the keys of all objects follow a rule and nothing sits deeper than a number of
levels. -/
def IsKept (rule : List String → Prop) (depth : Nat) (value : Json) : Prop :=
  ∀ below inner, SitsBelow value below inner →
    below ≤ depth ∧ ∀ members, inner = .object members → rule (Members.keys members)

/-- Members that may stand in such a value. -/
def AreKept (rule : List String → Prop) (depth : Nat) (members : Members) : Prop :=
  rule members.keys ∧ ∀ member ∈ members, IsKept rule depth member.2

section

variable {rule : List String → Prop} {depth more : Nat}

theorem IsKept.mono {value : Json} (kept : IsKept rule depth value) (enough : depth ≤ more) :
    IsKept rule more value :=
  fun below inner inside =>
    ⟨Nat.le_trans (kept below inner inside).1 enough, (kept below inner inside).2⟩

theorem AreKept.mono {members : Members} (kept : AreKept rule depth members) (enough : depth ≤ more) :
    AreKept rule more members :=
  ⟨kept.1, fun member inside => (kept.2 member inside).mono enough⟩

theorem isKept_of_scalar {value : Json} (noItems : ∀ items, value ≠ .array items)
    (noMembers : ∀ members, value ≠ .object members) (depth : Nat) : IsKept rule depth value := by
  intro below inner inside
  cases inside with
  | here => exact ⟨Nat.zero_le depth, fun members same => absurd same (noMembers members)⟩
  | item member further => exact absurd rfl (noItems _)
  | member member further => exact absurd rfl (noMembers _)

theorem isKept_text (depth : Nat) (value : String) : IsKept rule depth (.text value) :=
  isKept_of_scalar (fun _ => Json.noConfusion) (fun _ => Json.noConfusion) depth

theorem isKept_bool (depth : Nat) (value : Bool) : IsKept rule depth (.bool value) :=
  isKept_of_scalar (fun _ => Json.noConfusion) (fun _ => Json.noConfusion) depth

theorem isKept_array_iff {items : List Json} :
    IsKept rule (depth + 1) (.array items) ↔ ∀ item ∈ items, IsKept rule depth item := by
  constructor
  · intro kept item member below inner inside
    obtain ⟨enough, follows⟩ := kept (below + 1) inner (.item member inside)
    exact ⟨Nat.le_of_succ_le_succ enough, follows⟩
  · intro each below inner inside
    cases inside with
    | here => exact ⟨Nat.zero_le _, fun _ same => Json.noConfusion same⟩
    | item member further =>
      obtain ⟨enough, follows⟩ := each _ member _ inner further
      exact ⟨Nat.succ_le_succ enough, follows⟩

theorem isKept_object_iff {members : Members} :
    IsKept rule (depth + 1) (.object members) ↔ AreKept rule depth members := by
  constructor
  · intro kept
    refine ⟨(kept 0 _ (.here _)).2 members rfl, fun member there below inner inside => ?_⟩
    obtain ⟨enough, follows⟩ := kept (below + 1) inner (.member there inside)
    exact ⟨Nat.le_of_succ_le_succ enough, follows⟩
  · rintro ⟨follows, each⟩ below inner inside
    cases inside with
    | here =>
      refine ⟨Nat.zero_le _, fun others same => ?_⟩
      obtain rfl := Json.object.inj same
      exact follows
    | member there further =>
      obtain ⟨enough, follows⟩ := each _ there _ inner further
      exact ⟨Nat.succ_le_succ enough, follows⟩

theorem AreKept.get? {schema : Members} (kept : AreKept rule depth schema) {key : String} {value : Json}
    (found : schema.get? key = some value) : IsKept rule depth value :=
  kept.2 (key, value) (Members.mem_of_get? found)

/-- What an object among composed members holds fits into the schema that it is merged into. -/
theorem areKept_of_object {members : Members} (fits : IsKept rule depth (.object members)) :
    AreKept rule (depth + 1) members :=
  isKept_object_iff.mp (fits.mono (Nat.le_add_right depth 2))

end

/-! ### Members -/

section

variable {rule : List String → Prop} (isRule : IsKeyRule rule) {depth : Nat} {schema : Members}
include isRule

theorem areKept_nil (depth : Nat) : AreKept rule depth [] :=
  ⟨isRule.subperm (isRule.mark "type" (by decide)) List.nil_subperm,
    fun _ member => absurd member List.not_mem_nil⟩

theorem AreKept.insert (kept : AreKept rule depth schema) {others : List String} {key : String}
    (allowed : rule others) (inside : key ∈ others) {value : Json} (fits : IsKept rule depth value) :
    AreKept rule depth (schema.insert key value) := by
  refine ⟨?_, fun member there => ?_⟩
  · by_cases known : key ∈ schema.keys
    · rw [Members.keys_insert_of_mem known]
      exact kept.1
    · rw [Members.keys_insert_of_notMem known]
      exact isRule.concat kept.1 allowed inside known
  · rcases Members.mem_of_mem_insert there with before | rfl
    · exact kept.2 member before
    · exact fits

theorem AreKept.insertNew (kept : AreKept rule depth schema) {others : List String} {key : String}
    (allowed : rule others) (inside : key ∈ others) {value : Json} (fits : IsKept rule depth value) :
    AreKept rule depth (schema.insertNew key value) := by
  by_cases known : key ∈ schema.keys
  · rw [Members.insertNew_of_mem known]
    exact kept
  · rw [Members.insertNew_of_notMem known]
    exact kept.insert isRule allowed inside fits

theorem AreKept.insertAll {added : Members} (kept : AreKept rule depth schema)
    (new : AreKept rule depth added) : AreKept rule depth (schema.insertAll added) :=
  List.foldlRecOn added _ kept fun _ before member inside =>
    before.insert isRule new.1 (List.mem_map_of_mem inside) (new.2 member inside)

theorem AreKept.erase (kept : AreKept rule depth schema) (key : String) :
    AreKept rule depth (schema.erase key) :=
  ⟨isRule.subperm kept.1 (Members.keys_erase_subperm schema key),
    fun member inside => kept.2 member (Members.mem_of_mem_erase inside)⟩

/-- A mark may be put among any members. -/
theorem AreKept.insertMark (kept : AreKept rule depth schema) {key : String} (mark : key ∈ markKeys)
    {value : Json} (fits : IsKept rule depth value) : AreKept rule depth (schema.insert key value) :=
  kept.insert isRule (isRule.mark key mark) List.mem_cons_self fits

end

/-! ### Merging -/

section

variable {rule : List String → Prop} (isRule : IsKeyRule rule) {depth : Nat} {schema : Members}
include isRule

theorem AreKept.absorbMember (kept : AreKept rule (depth + 1) schema) (required : RequiredRule)
    {others : List String} {key : String} (allowed : rule others) (inside : key ∈ others)
    {value : Json} (fits : IsKept rule (depth + 1) value) :
    AreKept rule (depth + 1) (absorbMember required schema key value) := by
  unfold OpenApi.absorbMember
  split
  · next added =>
    have new := isKept_object_iff.mp fits
    split
    · next missing =>
      rw [← Members.insert_of_notMem (Members.notMem_keys_of_get?_eq_none missing)]
      exact kept.insert isRule allowed inside
        (isKept_object_iff.mpr ((areKept_nil isRule depth).insertAll isRule new))
    · next existing found =>
      exact kept.insert isRule allowed inside (isKept_object_iff.mpr
        ((isKept_object_iff.mp (kept.get? found)).insertAll isRule new))
    · exact kept
  · next added =>
    refine kept.insert isRule allowed inside (isKept_array_iff.mpr fun name member => ?_)
    rcases mem_of_mem_mergedRequired member with new | ⟨names, found, old⟩
    · exact isKept_array_iff.mp fits name new
    · exact isKept_array_iff.mp (kept.get? found) name old
  · exact kept.insertNew isRule allowed inside fits

/-- Merging keeps the rule and the depth. -/
theorem isMergeInvariant_areKept : IsMergeInvariant (AreKept rule (depth + 1)) where
  nil := areKept_nil isRule _
  nullable kept := kept.insertMark isRule (by decide) (isKept_bool _ _)
  required kept := kept.insertMark isRule (by decide)
    (isKept_array_iff.mpr fun _ member => absurd member List.not_mem_nil)
  member kept others inside :=
    kept.absorbMember isRule _ others.1 (List.mem_map_of_mem inside) (others.2 _ inside)
  type kept listed inside := kept.insertMark isRule (by decide)
    ((isKept_array_iff.mp (kept.get? listed) _ inside).mono (Nat.le_succ depth))
  erase _ kept := kept.erase isRule _
  part _ kept listed inside :=
    areKept_of_object (isKept_array_iff.mp (kept.get? listed) _ inside)

end

/-! ### Copies -/

/-- The rule holds of the keys of every object of a value: of those beside a reference, and of all of
them where there is none. -/
def Follows (rule : List String → Prop) (value : Json) : Prop :=
  ∀ below members, SitsBelow value below (.object members) →
    rule (Members.keys (siblings members)) ∧
      (referenceOf? members = none → rule (Members.keys members))

theorem Follows.inside {rule : List String → Prop} {outer inner : Json} {depth : Nat}
    (follows : Follows rule outer) (below : SitsBelow outer depth inner) : Follows rule inner :=
  fun further members there => follows (further + depth) members (below.trans there)

theorem exists_sitsBelow_of_follow {root target : Json} {stack : List String} {reference : String}
    (followed : visit root stack reference = .follow target) :
    ∃ depth, SitsBelow root depth target := by
  unfold visit at followed
  split at followed
  · split at followed
    · exact Visit.noConfusion followed
    · split at followed
      · next found =>
        obtain rfl := Visit.follow.inj followed
        exact Json.exists_sitsBelow_of_pointer? found
      · exact Visit.noConfusion followed
  · exact Visit.noConfusion followed

section

variable {rule : List String → Prop} (isRule : IsKeyRule rule)
include isRule

theorem isKept_circular (depth : Nat) (reference : String) :
    IsKept rule (depth + 1) (circular reference) := by
  have empty := areKept_nil isRule depth
  have typed := empty.insertMark isRule (show "type" ∈ markKeys by decide) (isKept_text depth "object")
  exact isKept_object_iff.mpr
    (typed.insertMark isRule (show circularKey ∈ markKeys by decide) (isKept_text depth reference))

theorem isKept_unresolved (depth : Nat) (reference : String) :
    IsKept rule (depth + 1) (unresolved reference) :=
  isKept_object_iff.mpr ((areKept_nil isRule depth).insertMark isRule
    (show unresolvedKey ∈ markKeys by decide) (isKept_text depth reference))

theorem isKept_overlay {depth : Nat} {target : Json} (kept : IsKept rule (depth + 1) target)
    {beside : Members} (new : AreKept rule (depth + 1) beside) :
    IsKept rule (depth + 2) (overlay target beside) := by
  cases target with
  | object members =>
    exact isKept_object_iff.mpr
      (((isKept_object_iff.mp kept).mono (Nat.le_succ depth)).insertAll isRule new)
  | _ => exact kept.mono (Nat.le_succ _)

/-- A copy follows the rule if the document does, and is nested no deeper than one level more than it was
made with. -/
theorem isKept_expandNode {root : Json} (document : Follows rule root) {stack : List String}
    (position : Position) (levels : Nat) {node : Json} (follows : Follows rule node) :
    IsKept rule (levels + 1) (expandNode root stack position levels node) := by
  -- The stack only decides where a mark stands, and the position only whether members are merged; both
  -- keep the rule, so neither needs an invariant of its own.
  induction levels generalizing stack position node with
  | zero => exact isKept_circular isRule 0 _
  | succ levels inductionHypothesis =>
    cases node with
    | object members =>
      have copies (part : Members) (allowed : rule part.keys)
          (inside : ∀ member ∈ part, member ∈ members) :
          AreKept rule (levels + 1) (part.map fun member =>
            (member.1, expandNode root stack (position.ofChild member.1) levels member.2)) := by
        refine ⟨?_, fun copy there => ?_⟩
        · rw [Members.keys, List.map_map]
          exact allowed
        · obtain ⟨member, further, rfl⟩ := List.mem_map.mp there
          exact inductionHypothesis _ (follows.inside (.member (inside member further) (.here member.2)))
      obtain ⟨besideAllowed, allAllowed⟩ := follows 0 members (.here _)
      cases given : referenceOf? members with
      | none =>
        have all := copies members (allAllowed given) fun _ => id
        rw [expandNode_of_none given]
        refine isKept_object_iff.mpr ?_
        dsimp only
        split
        · exact (isMergeInvariant_areKept isRule).merge all
        · exact all
      | some reference =>
        have beside := copies (siblings members) besideAllowed
          fun _ there => (List.mem_filter.mp there).1
        rw [expandNode_of_some given]
        refine isKept_overlay isRule ?_ beside
        cases visited : visit root stack reference with
        | external => exact isKept_unresolved isRule levels reference
        | cut => exact isKept_circular isRule levels reference
        | dangling => exact isKept_unresolved isRule levels reference
        | follow target =>
          obtain ⟨depth, below⟩ := exists_sitsBelow_of_follow visited
          exact inductionHypothesis position (document.inside below)
    | array items =>
      refine isKept_array_iff.mpr fun copy inside => ?_
      obtain ⟨item, there, rfl⟩ := List.mem_map.mp inside
      exact inductionHypothesis _ (follows.inside (.item there (.here item)))
    | _ => exact isKept_of_scalar (fun _ => Json.noConfusion) (fun _ => Json.noConfusion) _

/-- A copied document follows every rule on keys that the document follows, and nothing in it sits deeper
than two levels below the depth to which a document is walked. -/
theorem isKept_resolve {root : Json} (follows : Follows rule root) :
    IsKept rule (maxDepth + 2) (resolve root) := by
  rw [show resolve root = expand root from (agrees_resolve root).value]
  exact isKept_expandNode isRule follows .schema (maxDepth + 1) follows

end

end ApiSurface.OpenApi
