/-
This file says once what has to be shown of a property of members so that merging compositions keeps it. A
merger only ever puts something that one object holds into another one, besides a flag for null and an empty
list of required names. So a property that each such step keeps, and that the members of a composition have
if the schema does, is a property of the merged schema.

A property that speaks of single members by their keys has even less to show: the only members that a merger
makes up of several others are the required names and the properties.
-/

import ApiSurface.Proofs.OpenApi.Merging

namespace ApiSurface.OpenApi

open Json (Members)

/-! ### Absorbing -/

/-- A property of members that is kept when an object that has it is folded into another one. -/
structure IsAbsorbing (holds : Members → Prop) : Prop where
  /-- No members have it. -/
  nil : holds []
  /-- The flag for null may be put. -/
  nullable : ∀ {schema}, holds schema → holds (schema.insert "nullable" (.bool true))
  /-- An empty list of required names may be put. -/
  required : ∀ {schema}, holds schema → holds (schema.insert "required" (.array []))
  /-- A member of an object that has it may be folded in. -/
  member : ∀ {rule schema other member}, holds schema → holds other → member ∈ other →
    holds (absorbMember rule schema member.1 member.2)

section

variable {holds : Members → Prop} (absorbing : IsAbsorbing holds) {schema member : Members}
include absorbing

theorem IsAbsorbing.absorb (kept : holds schema) (new : holds member) (rule : RequiredRule) :
    holds (absorb rule schema member) :=
  List.foldlRecOn member _ kept fun _ before _ inside => absorbing.member before new inside

theorem IsAbsorbing.absorbVariant (kept : holds schema) {variant : Json}
    (new : ∀ part, variant = .object part → holds part) : holds (absorbVariant schema variant) := by
  cases variant with
  | object part =>
    have required : holds (if Members.contains part "required" then schema
        else schema.insert "required" (.array [])) := by
      split
      · exact kept
      · exact absorbing.required kept
    exact absorbing.absorb required (new part rfl) .both
  | _ => exact kept

theorem IsAbsorbing.mergedVariants {variants : List Json}
    (parts : ∀ part, .object part ∈ variants → holds part) : holds (mergedVariants variants) := by
  cases variants with
  | nil => exact absorbing.nil
  | cons first rest =>
    refine List.foldlRecOn rest _ ?_ fun _ before variant inside => absorbing.absorbVariant before
      fun part same => parts part (List.mem_cons_of_mem _ (same ▸ inside))
    cases first with
    | object part => exact absorbing.absorb absorbing.nil (parts part List.mem_cons_self) .either
    | _ => exact absorbing.nil

theorem IsAbsorbing.collapsed? {variants : List Json}
    (parts : ∀ part, .object part ∈ variants → holds part) {merged : Members}
    (found : collapsed? variants = some merged) : holds merged := by
  have single {value : Json} {rest : List Json} (same : variants = value :: rest)
      (object : value.asObject? = some merged) : holds merged := by
    cases value with
    | object part =>
      obtain rfl := Option.some.inj object
      exact parts _ (same ▸ List.mem_cons_self)
    | _ => cases object
  unfold OpenApi.collapsed? at found
  split at found
  · cases found
  · exact single rfl found
  · split at found
    · obtain rfl := Option.some.inj found
      exact absorbing.mergedVariants parts
    · exact single rfl found

/-- What `allOf` lists is folded into what is left of the schema without it. -/
theorem IsAbsorbing.mergeAllOf {parts : List Json} (listed : schema.get? "allOf" = some (.array parts))
    (erased : holds (schema.erase "allOf")) (each : ∀ part, .object part ∈ parts → holds part) :
    holds (mergeAllOf schema) := by
  unfold OpenApi.mergeAllOf
  rw [listed]
  refine List.foldlRecOn parts _ erased fun _ before part inside => ?_
  cases part with
  | object part => exact absorbing.absorb before (each part inside) .either
  | _ => exact before

/-- So are the variants that a keyword lists. -/
theorem IsAbsorbing.collapseVariants {keyword : String} {variants : List Json}
    (listed : schema.get? keyword = some (.array variants)) (erased : holds (schema.erase keyword))
    (each : ∀ part, .object part ∈ variants → holds part) : holds (collapseVariants keyword schema) := by
  have others (part : Members) (inside : .object part ∈ variants.filter fun variant =>
      !isNullSchema variant) : holds part := each part (List.mem_filter.mp inside).1
  have flagged {result : Members} (before : holds result) {condition : Prop} [Decidable condition] :
      holds (if condition then result.insert "nullable" (.bool true) else result) := by
    split
    · exact absorbing.nullable before
    · exact before
  unfold OpenApi.collapseVariants
  rw [listed]
  refine flagged ?_
  split
  · next found => exact absorbing.absorb erased (absorbing.collapsed? others found) .either
  · exact erased

end

/-! ### Merging -/

/-- A property of members that merging keeps. -/
structure IsMergeInvariant (holds : Members → Prop) : Prop extends IsAbsorbing holds where
  /-- A type that is listed may stand as the type. -/
  type : ∀ {schema types type}, holds schema → schema.get? "type" = some (.array types) →
    type ∈ types → holds (schema.insert "type" type)
  /-- The keyword of a composition may be left out. -/
  erase : ∀ {schema keyword}, keyword ∈ compositionKeywords → holds schema →
    holds (schema.erase keyword)
  /-- The members of a composition have it as well. -/
  part : ∀ {schema keyword parts part}, keyword ∈ compositionKeywords → holds schema →
    schema.get? keyword = some (.array parts) → .object part ∈ parts → holds part

section

variable {holds : Members → Prop} (invariant : IsMergeInvariant holds) {schema : Members}
include invariant

theorem IsMergeInvariant.normalizeTypes (kept : holds schema) : holds (normalizeTypes schema) := by
  unfold OpenApi.normalizeTypes
  split
  · next types listed =>
    have flagged {result : Members} (before : holds result) {condition : Prop} [Decidable condition] :
        holds (if condition then result else result.insert "nullable" (.bool true)) := by
      split
      · exact before
      · exact invariant.nullable before
    refine flagged ?_
    split
    · next single only =>
      have inside : single ∈ types.filter fun type => !isNullName type := only ▸ List.mem_cons_self
      exact invariant.type kept listed (List.mem_filter.mp inside).1
    · exact kept
  · exact kept

theorem IsMergeInvariant.mergeAllOf (kept : holds schema) : holds (mergeAllOf schema) := by
  have composes : "allOf" ∈ compositionKeywords := by decide
  have erased := invariant.erase composes kept
  cases found : schema.get? "allOf" with
  | none =>
    rw [OpenApi.mergeAllOf, found]
    exact kept
  | some value =>
    cases value with
    | array parts =>
      exact invariant.toIsAbsorbing.mergeAllOf found erased fun _ => invariant.part composes kept found
    | _ =>
      rw [OpenApi.mergeAllOf, found]
      exact erased

theorem IsMergeInvariant.collapseVariants {keyword : String} (composes : keyword ∈ compositionKeywords)
    (kept : holds schema) : holds (collapseVariants keyword schema) := by
  by_cases listed : ∃ variants, schema.get? keyword = some (.array variants)
  · obtain ⟨variants, found⟩ := listed
    exact invariant.toIsAbsorbing.collapseVariants found (invariant.erase composes kept)
      fun _ => invariant.part composes kept found
  · unfold OpenApi.collapseVariants
    split
    · next found => exact absurd ⟨_, found⟩ listed
    · exact kept

theorem IsMergeInvariant.merge (kept : holds schema) : holds (merge schema) :=
  invariant.collapseVariants (by decide) (invariant.collapseVariants (by decide)
    (invariant.mergeAllOf (invariant.normalizeTypes kept)))

end

/-! ### Rules for single members -/

theorem mem_of_mem_union {left right : List Json} :
    ∀ value ∈ union left right, value ∈ left ∨ value ∈ right := by
  refine List.foldlRecOn (motive := fun result => ∀ value ∈ result, value ∈ left ∨ value ∈ right)
    right _ (fun value member => .inl member) fun result kept added inside value member => ?_
  split at member
  · exact kept value member
  · rcases List.mem_append.mp member with before | here
    · exact kept value before
    · rw [List.mem_singleton.mp here]
      exact .inr inside

theorem mem_of_mem_mergedRequired {rule : RequiredRule} {existing : Option Json} {added : List Json}
    {value : Json} (member : value ∈ mergedRequired rule existing added) :
    value ∈ added ∨ ∃ names, existing = some (.array names) ∧ value ∈ names := by
  unfold mergedRequired at member
  split at member
  · next names => exact (mem_of_mem_union value member).symm.imp_right fun here => ⟨names, rfl, here⟩
  · next names => exact .inr ⟨names, rfl, (List.mem_filter.mp member).1⟩
  · exact absurd member List.not_mem_nil
  · exact .inl member

/-- A rule that members obey which a merger makes up of others that obey it. -/
structure IsMemberRule (rule : String → Json → Prop) : Prop where
  /-- The flag for null obeys it. -/
  nullable : rule "nullable" (.bool true)
  /-- Required names obey it if each of them is one of required names that do. -/
  required : ∀ {names}, (∀ name ∈ names, ∃ others, rule "required" (.array others) ∧ name ∈ others) →
    rule "required" (.array names)
  /-- No properties obey it. -/
  noProperties : rule "properties" (.object [])
  /-- Properties that are put into others obey it. -/
  properties : ∀ {table added}, rule "properties" (.object table) → rule "properties" (.object added) →
    rule "properties" (.object (Members.insertAll table added))
  /-- A type obeys it that is one of types that do. -/
  type : ∀ {types type}, rule "type" (.array types) → type ∈ types → rule "type" type
  /-- The members of an object obey it that is one of a composition that does. -/
  part : ∀ {keyword parts part member}, keyword ∈ compositionKeywords → rule keyword (.array parts) →
    .object part ∈ parts → member ∈ part → rule member.1 member.2

/-- All members obey a rule. -/
def Obey (rule : String → Json → Prop) (members : Members) : Prop :=
  ∀ member ∈ members, rule member.1 member.2

section

variable {rule : String → Json → Prop} {members : Members}

theorem Obey.get? (obey : Obey rule members) {key : String} {value : Json}
    (found : members.get? key = some value) : rule key value :=
  obey _ (Members.mem_of_get? found)

theorem Obey.insert (obey : Obey rule members) {key : String} {value : Json}
    (new : rule key value) : Obey rule (members.insert key value) := by
  intro member inside
  rcases Members.mem_of_mem_insert inside with before | rfl
  · exact obey member before
  · exact new

theorem Obey.insertNew (obey : Obey rule members) {key : String} {value : Json}
    (new : rule key value) : Obey rule (members.insertNew key value) := by
  by_cases known : key ∈ members.keys
  · rw [Members.insertNew_of_mem known]
    exact obey
  · rw [Members.insertNew_of_notMem known]
    exact obey.insert new

theorem Obey.insertAll {added : Members} (obey : Obey rule members) (new : Obey rule added) :
    Obey rule (members.insertAll added) :=
  List.foldlRecOn added _ obey fun _ before member inside => before.insert (new member inside)

theorem Obey.erase (obey : Obey rule members) (key : String) : Obey rule (members.erase key) :=
  fun member inside => obey member (Members.mem_of_mem_erase inside)

variable (isRule : IsMemberRule rule)
include isRule

theorem Obey.absorbMember (obey : Obey rule members) {key : String} {value : Json}
    (new : rule key value) (required : RequiredRule) :
    Obey rule (absorbMember required members key value) := by
  unfold OpenApi.absorbMember
  split
  · next added =>
    split
    · next missing =>
      rw [← Members.insert_of_notMem (Members.notMem_keys_of_get?_eq_none missing)]
      exact obey.insert (isRule.properties isRule.noProperties new)
    · next existing found => exact obey.insert (isRule.properties (obey.get? found) new)
    · exact obey
  · next added =>
    refine obey.insert (isRule.required fun name inside => ?_)
    rcases mem_of_mem_mergedRequired inside with here | ⟨names, found, there⟩
    · exact ⟨added, new, here⟩
    · exact ⟨names, obey.get? found, there⟩
  · exact obey.insertNew new

/-- Merging keeps that all members obey a rule. -/
theorem IsMemberRule.isMergeInvariant : IsMergeInvariant (Obey rule) where
  nil _ inside := absurd inside List.not_mem_nil
  nullable obey := obey.insert isRule.nullable
  required obey := obey.insert (isRule.required fun _ inside => absurd inside List.not_mem_nil)
  member obey others inside := obey.absorbMember isRule (others _ inside) _
  type obey listed inside := obey.insert (isRule.type (obey.get? listed) inside)
  erase _ obey := obey.erase _
  part composes obey listed inside _ there := isRule.part composes (obey.get? listed) inside there

end

end ApiSurface.OpenApi
