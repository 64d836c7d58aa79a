/-
This file proves where compositions are left in a copied document. Merging takes the keyword out of a schema
before the members are folded in, and no member brings it back unless it still carries it itself. So the only
way for one to stay is to be written beside a reference: what is written there is laid over the target after
the target was merged, and nothing merges the two.

What stands beside a reference becomes a list only if it is one, or a reference in turn, which may lead to one.
-/

import ApiSurface.Proofs.OpenApi.Composition
import ApiSurface.Proofs.OpenApi.Copies
import ApiSurface.Proofs.OpenApi.Settled

namespace ApiSurface.OpenApi

open Json (EachObject Members SitsBelow)

/-! ### Lists under a keyword -/

/-- A value stands in another one, where the position of the outer one decides that of the inner one. -/
inductive StandsAt : Position → Json → Position → Json → Prop
  /-- A value stands in itself. -/
  | here (position : Position) (value : Json) : StandsAt position value position value
  /-- What stands in an item of an array. -/
  | item {position place : Position} {items : List Json} {item value : Json} (member : item ∈ items)
    (below : StandsAt position.ofItem item place value) : StandsAt position (.array items) place value
  /-- What stands in a member of an object. -/
  | member {position place : Position} {members : Members} {key : String} {held value : Json}
    (member : (key, held) ∈ members) (below : StandsAt (position.ofChild key) held place value) :
    StandsAt position (.object members) place value

/-- An object holds no list under a keyword. -/
def IsUnlisted (keyword : String) (schema : Members) : Prop :=
  ∀ values, schema.get? keyword ≠ some (.array values)

/-- No schema in a value that stands at a position holds a list under a keyword. -/
def ListsNothing (keyword : String) (position : Position) (value : Json) : Prop :=
  ∀ schema, StandsAt position value .schema (.object schema) → IsUnlisted keyword schema

section

variable {keyword : String} {position : Position} {items : List Json} {members schema : Members}

theorem listsNothing_array_iff :
    ListsNothing keyword position (.array items) ↔
      ∀ item ∈ items, ListsNothing keyword position.ofItem item := by
  constructor
  · intro none item member schema below
    exact none schema (.item member below)
  · intro each schema below
    cases below with
    | item member further => exact each _ member schema further

theorem listsNothing_object_iff :
    ListsNothing keyword position (.object members) ↔
      (position = .schema → IsUnlisted keyword members) ∧
        ∀ member ∈ members, ListsNothing keyword (position.ofChild member.1) member.2 := by
  constructor
  · intro none
    refine ⟨?_, fun member inside schema below => none schema (.member inside below)⟩
    rintro rfl
    exact none members (.here _ _)
  · rintro ⟨top, each⟩ schema below
    cases below with
    | here => exact top rfl
    | member inside further => exact each _ inside schema further

theorem listsNothing_of_scalar {value : Json} (noItems : ∀ items, value ≠ .array items)
    (noMembers : ∀ members, value ≠ .object members) : ListsNothing keyword position value := by
  intro schema below
  cases below with
  | here => exact absurd rfl (noMembers schema)
  | item => exact absurd rfl (noItems _)
  | member => exact absurd rfl (noMembers _)

theorem listsNothing_text (text : String) : ListsNothing keyword position (.text text) :=
  listsNothing_of_scalar nofun nofun

theorem listsNothing_bool (value : Bool) : ListsNothing keyword position (.bool value) :=
  listsNothing_of_scalar nofun nofun

theorem isUnlisted_of_none (missing : schema.get? keyword = none) : IsUnlisted keyword schema := by
  intro values found
  rw [missing] at found
  cases found

theorem IsUnlisted.insert (unlisted : IsUnlisted keyword schema) {other : String} {value : Json}
    (new : keyword = other → ∀ values, value ≠ .array values) :
    IsUnlisted keyword (schema.insert other value) := by
  intro values found
  rw [Members.get?_insert] at found
  split at found
  · next same => exact new same values (Option.some.inj found)
  · exact unlisted values found

end

/-! ### Merging -/

/-- The keys are pairwise different, as they are in what the members hold, where no schema holds a list under
a keyword. -/
structure AreUnlistedBelow (keyword : String) (schema : Members) : Prop where
  distinct : schema.keys.Nodup
  members : Obey (fun key value => value.HasDistinctKeys ∧
    ListsNothing keyword (Position.schema.ofChild key) value) schema

/-- Neither does the schema itself. -/
structure AreUnlisted (keyword : String) (schema : Members) : Prop extends
    AreUnlistedBelow keyword schema where
  unlisted : IsUnlisted keyword schema

theorem ofChild_of_composes {keyword : String} (composes : keyword ∈ compositionKeywords) :
    Position.schema.ofChild keyword = .schema := by
  revert keyword
  decide

section

variable {keyword : String} {schema : Members}

theorem isMemberRule_listsNothing : IsMemberRule fun key value => value.HasDistinctKeys ∧
    ListsNothing keyword (Position.schema.ofChild key) value where
  nullable := ⟨Json.hasDistinctKeys_bool true, listsNothing_bool true⟩
  required each := by
    refine ⟨Json.hasDistinctKeys_array_iff.mpr fun name inside => ?_,
      listsNothing_array_iff.mpr fun name inside => ?_⟩ <;>
      obtain ⟨others, ⟨distinct, none⟩, there⟩ := each name inside
    · exact Json.hasDistinctKeys_array_iff.mp distinct name there
    · exact listsNothing_array_iff.mp none name there
  noProperties := ⟨Json.hasDistinctKeys_nothing, listsNothing_object_iff.mpr ⟨nofun, nofun⟩⟩
  properties := by
    rintro table added ⟨distinct, none⟩ ⟨addedDistinct, addedNone⟩
    rw [Json.hasDistinctKeys_object_iff] at distinct addedDistinct
    have laidDistinct : Obey (fun _ value => value.HasDistinctKeys) (Members.insertAll table added) :=
      Obey.insertAll distinct.2 addedDistinct.2
    have laidNone : Obey (fun key value => ListsNothing keyword (Position.names.ofChild key) value)
        (Members.insertAll table added) :=
      Obey.insertAll (listsNothing_object_iff.mp none).2 (listsNothing_object_iff.mp addedNone).2
    refine ⟨Json.hasDistinctKeys_object_iff.mpr ⟨?_, laidDistinct⟩,
      listsNothing_object_iff.mpr ⟨nofun, laidNone⟩⟩
    rw [Members.insertAll_eq_putAll]
    exact Keyed.nodup_map_putAll distinct.1 added
  type := by
    rintro types type ⟨distinct, none⟩ inside
    exact ⟨Json.hasDistinctKeys_array_iff.mp distinct type inside,
      listsNothing_array_iff.mp none type inside⟩
  part := by
    rintro other parts part member composes ⟨distinct, none⟩ inside there
    rw [ofChild_of_composes composes] at none
    exact ⟨(Json.hasDistinctKeys_array_iff.mp distinct _ inside).of_mem there,
      (listsNothing_object_iff.mp (listsNothing_array_iff.mp none _ inside)).2 member there⟩

/-- The members of a composition do not hold a list under the keyword. -/
theorem AreUnlistedBelow.part (unlisted : AreUnlistedBelow keyword schema) {other : String}
    (composes : other ∈ compositionKeywords) {parts : List Json}
    (listed : schema.get? other = some (.array parts)) {part : Members} (inside : .object part ∈ parts) :
    AreUnlisted keyword part := by
  obtain ⟨distinct, none⟩ := unlisted.members.get? listed
  rw [ofChild_of_composes composes] at none
  have top := listsNothing_object_iff.mp (listsNothing_array_iff.mp none _ inside)
  have whole := Json.hasDistinctKeys_array_iff.mp distinct _ inside
  exact ⟨⟨whole.nodup_keys, fun member there => ⟨whole.of_mem there, top.2 member there⟩⟩, top.1 rfl⟩

theorem isMergeInvariant_areUnlistedBelow : IsMergeInvariant (AreUnlistedBelow keyword) where
  nil := ⟨List.nodup_nil, isMemberRule_listsNothing.isMergeInvariant.nil⟩
  nullable kept := ⟨Members.nodup_keys_insert kept.distinct _ _,
    isMemberRule_listsNothing.isMergeInvariant.nullable kept.members⟩
  required kept := ⟨Members.nodup_keys_insert kept.distinct _ _,
    isMemberRule_listsNothing.isMergeInvariant.required kept.members⟩
  member kept others inside :=
    ⟨((Keeps.refl kept.distinct "title").absorbMember (by decide) (by decide) _ _ _).distinct,
      isMemberRule_listsNothing.isMergeInvariant.member kept.members others.members inside⟩
  type kept listed inside := ⟨Members.nodup_keys_insert kept.distinct _ _,
    isMemberRule_listsNothing.isMergeInvariant.type kept.members listed inside⟩
  erase composes kept := ⟨Members.nodup_keys_erase kept.distinct _,
    isMemberRule_listsNothing.isMergeInvariant.erase composes kept.members⟩
  part composes kept listed inside := (kept.part composes listed inside).toAreUnlistedBelow

/-- What is folded in has no list under the keyword of a composition if neither side has one. -/
theorem IsUnlisted.absorbMember {other : Members} (unlisted : IsUnlisted keyword schema)
    (composes : keyword ∈ compositionKeywords) (none : AreUnlisted keyword other) {rule : RequiredRule}
    {member : String × Json} (inside : member ∈ other) :
    IsUnlisted keyword (absorbMember rule schema member.1 member.2) := by
  have plain : ∀ keyword ∈ compositionKeywords, keyword ≠ "properties" ∧ keyword ≠ "required" := by decide
  intro values found
  by_cases same : keyword = member.1
  · subst same
    rw [absorbMember_other (plain _ composes).1 (plain _ composes).2, Members.get?_insertNew, if_pos rfl]
      at found
    cases own : schema.get? member.1 with
    | none =>
      rw [own, Option.none_or] at found
      exact none.unlisted values
        (((Members.get?_eq_some_iff none.distinct).mpr inside).trans found)
    | some value =>
      rw [own, Option.some_or] at found
      exact unlisted values (own.trans found)
  · rw [get?_absorbMember_of_ne same] at found
    exact unlisted values found

theorem isMergeInvariant_areUnlisted (composes : keyword ∈ compositionKeywords) :
    IsMergeInvariant (AreUnlisted keyword) := by
  have below : IsMergeInvariant (AreUnlistedBelow keyword) := isMergeInvariant_areUnlistedBelow
  have apart : ∀ keyword ∈ compositionKeywords,
      keyword ≠ "type" ∧ keyword ≠ "nullable" ∧ keyword ≠ "required" := by decide
  obtain ⟨notType, notNullable, notRequired⟩ := apart keyword composes
  exact {
    nil := ⟨below.nil, isUnlisted_of_none rfl⟩
    nullable := fun kept => ⟨below.nullable kept.1, kept.unlisted.insert fun same => absurd same notNullable⟩
    required := fun kept => ⟨below.required kept.1, kept.unlisted.insert fun same => absurd same notRequired⟩
    member := fun kept others inside =>
      ⟨below.member kept.1 others.1 inside, kept.unlisted.absorbMember composes others inside⟩
    type := fun kept listed inside =>
      ⟨below.type kept.1 listed inside, kept.unlisted.insert fun same => absurd same notType⟩
    erase := fun other kept => ⟨below.erase other kept.1, fun values found => by
      rw [Members.get?_erase kept.distinct] at found
      split at found
      · cases found
      · exact kept.unlisted values found⟩
    part := fun other kept listed inside => kept.part other listed inside }

/-- Without the keyword there is no list under it. -/
theorem AreUnlistedBelow.erase (kept : AreUnlistedBelow keyword schema)
    (composes : keyword ∈ compositionKeywords) : AreUnlisted keyword (schema.erase keyword) := by
  refine ⟨isMergeInvariant_areUnlistedBelow.erase composes kept, isUnlisted_of_none ?_⟩
  rw [Members.get?_erase kept.distinct, if_pos rfl]

theorem AreUnlistedBelow.mergeAllOf (kept : AreUnlistedBelow "allOf" schema) :
    AreUnlisted "allOf" (mergeAllOf schema) := by
  have composes : "allOf" ∈ compositionKeywords := by decide
  have erased := kept.erase composes
  cases found : schema.get? "allOf" with
  | none =>
    rw [OpenApi.mergeAllOf, found]
    exact ⟨kept, isUnlisted_of_none found⟩
  | some value =>
    cases value with
    | array parts =>
      exact (isMergeInvariant_areUnlisted composes).toIsAbsorbing.mergeAllOf found erased
        fun _ inside => kept.part composes found inside
    | _ =>
      rw [OpenApi.mergeAllOf, found]
      exact erased

theorem AreUnlistedBelow.collapseVariants (kept : AreUnlistedBelow keyword schema)
    (composes : keyword ∈ compositionKeywords) :
    AreUnlisted keyword (collapseVariants keyword schema) := by
  by_cases listed : ∃ variants, schema.get? keyword = some (.array variants)
  · obtain ⟨variants, found⟩ := listed
    exact (isMergeInvariant_areUnlisted composes).toIsAbsorbing.collapseVariants found
      (kept.erase composes) fun _ inside => kept.part composes found inside
  · have same : OpenApi.collapseVariants keyword schema = schema := by
      unfold OpenApi.collapseVariants
      split
      · next found => exact absurd ⟨_, found⟩ listed
      · rfl
    rw [same]
    exact ⟨kept, fun variants found => listed ⟨variants, found⟩⟩

/-- Every keyword of a composition is merged by a step of its own, and no later step brings it back. -/
theorem AreUnlistedBelow.merge (kept : AreUnlistedBelow keyword schema)
    (composes : keyword ∈ compositionKeywords) : AreUnlisted keyword (merge schema) := by
  have below : IsMergeInvariant (AreUnlistedBelow keyword) := isMergeInvariant_areUnlistedBelow
  have above := isMergeInvariant_areUnlisted composes
  have typed := below.normalizeTypes kept
  have cases : keyword = "allOf" ∨ keyword = "oneOf" ∨ keyword = "anyOf" := by
    simpa [compositionKeywords] using composes
  rcases cases with rfl | rfl | rfl
  · exact above.collapseVariants (by decide) (above.collapseVariants (by decide) typed.mergeAllOf)
  · exact above.collapseVariants (by decide) ((below.mergeAllOf typed).collapseVariants (by decide))
  · exact (below.collapseVariants (by decide) (below.mergeAllOf typed)).collapseVariants (by decide)

end

/-! ### Copies -/

/-- A value is neither a list nor a reference, which may lead to one. -/
def MakesNoList (value : Json) : Prop :=
  (∀ items, value ≠ .array items) ∧ ∀ members, value = .object members → referenceOf? members = none

/-- Whatever is written under a keyword beside a reference makes no list. -/
def IsApartFromReferences (keyword : String) : Json → Prop :=
  EachObject fun members => (referenceOf? members).isSome = true →
    ∀ beside ∈ members.get? keyword, MakesNoList beside

section

variable {root : Json} {stack : List String} {keyword : String} {position : Position}

theorem MakesNoList.expandNode_ne {node : Json} (noList : MakesNoList node) (levels : Nat)
    (items : List Json) : expandNode root stack position levels node ≠ .array items := by
  cases levels with
  | zero => exact Json.noConfusion
  | succ levels =>
    cases node with
    | object members =>
      rw [expandNode_of_none (noList.2 members rfl)]
      exact Json.noConfusion
    | array others => exact absurd rfl (noList.1 others)
    | _ => exact Json.noConfusion

theorem listsNothing_circular (composes : keyword ∈ compositionKeywords) (reference : String) :
    ListsNothing keyword position (circular reference) := by
  have absent : ∀ keyword ∈ compositionKeywords, keyword ≠ "type" ∧ keyword ≠ circularKey := by decide
  refine listsNothing_object_iff.mpr ⟨fun _ => isUnlisted_of_none ?_, ?_⟩
  · rw [Members.get?_cons, if_neg (absent _ composes).1, Members.get?_cons, if_neg (absent _ composes).2]
    rfl
  · exact List.forall_mem_cons.mpr ⟨listsNothing_text _, List.forall_mem_singleton.mpr (listsNothing_text _)⟩

theorem listsNothing_unresolved (composes : keyword ∈ compositionKeywords) (reference : String) :
    ListsNothing keyword position (unresolved reference) := by
  have absent : ∀ keyword ∈ compositionKeywords, keyword ≠ unresolvedKey := by decide
  refine listsNothing_object_iff.mpr ⟨fun _ => isUnlisted_of_none ?_, ?_⟩
  · rw [Members.get?_cons, if_neg (absent _ composes)]
    rfl
  · exact List.forall_mem_singleton.mpr (listsNothing_text _)

/-- What is written beside a reference and makes no list is not copied to one. -/
theorem isUnlisted_copiedSiblings (composes : keyword ∈ compositionKeywords) (levels : Nat)
    {members : Members} (apart : ∀ beside, members.get? keyword = some beside → MakesNoList beside) :
    IsUnlisted keyword (copiedMembers root stack position levels (siblings members)) := by
  have notReference : ∀ keyword ∈ compositionKeywords, keyword ≠ "$ref" := by decide
  intro values found
  rw [get?_copiedMembers] at found
  obtain ⟨written, there, list⟩ := Option.map_eq_some_iff.mp found
  have held : members.get? keyword = some written := by
    rw [← there]
    exact (@Keyed.lookup_filter String _ Json _ _ (· != "$ref")
      (bne_iff_ne.mpr (notReference _ composes))).symm
  exact (apart written held).expandNode_ne levels values list

/-- Laying members over a target lists nothing where neither of them does. -/
theorem listsNothing_overlay {target : Json} {beside : Members}
    (none : ListsNothing keyword position target) (distinct : beside.keys.Nodup)
    (unlisted : IsUnlisted keyword beside)
    (each : Obey (fun key value => ListsNothing keyword (position.ofChild key) value) beside) :
    ListsNothing keyword position (overlay target beside) := by
  cases target with
  | object copies =>
    obtain ⟨top, below⟩ := listsNothing_object_iff.mp none
    have laid : Obey (fun key value => ListsNothing keyword (position.ofChild key) value)
        (Members.insertAll copies beside) := Obey.insertAll below each
    refine listsNothing_object_iff.mpr ⟨fun schema values found => ?_, laid⟩
    rw [Members.get?_insertAll, Members.get?_reverse distinct] at found
    cases own : beside.get? keyword with
    | none => exact top schema values (by rwa [own, Option.none_or] at found)
    | some value => exact unlisted values (by rwa [own, Option.some_or, ← own] at found)
  | _ => exact none

theorem hasDistinctKeys_expandNode (rootDistinct : root.HasDistinctKeys) {node : Json}
    (distinct : node.HasDistinctKeys) (levels : Nat) :
    (expandNode root stack position levels node).HasDistinctKeys := fun below members inside =>
  (isKept_expandNode isKeyRule_nodup (follows_nodup rootDistinct) position levels
    (follows_nodup distinct) below _ inside).2 members rfl

/-- In a copy no schema holds a list under the keyword of a composition if none is written beside a
reference. -/
theorem listsNothing_expandNode (composes : keyword ∈ compositionKeywords)
    (rootDistinct : root.HasDistinctKeys) (rootApart : IsApartFromReferences keyword root) (levels : Nat)
    {node : Json} (distinct : node.HasDistinctKeys) (apart : IsApartFromReferences keyword node) :
    ListsNothing keyword position (expandNode root stack position levels node) := by
  induction levels generalizing stack position node with
  | zero => exact listsNothing_circular composes _
  | succ levels inductionHypothesis =>
    cases node with
    | object members =>
      have copied (part : Members) (inside : ∀ member ∈ part, member ∈ members) :
          Obey (fun key value => value.HasDistinctKeys ∧
            ListsNothing keyword (position.ofChild key) value)
            (copiedMembers root stack position levels part) := by
        intro copy there
        obtain ⟨member, further, rfl⟩ := List.mem_map.mp there
        have below := SitsBelow.member (inside member further) (.here member.2)
        exact ⟨hasDistinctKeys_expandNode rootDistinct (distinct.of_sitsBelow below) levels,
          inductionHypothesis (distinct.of_sitsBelow below) (apart.inside below)⟩
      cases given : referenceOf? members with
      | none =>
        have all := copied members fun _ => id
        rw [expandNode_of_none given]
        dsimp only
        split
        · next schema =>
          subst schema
          have merged := AreUnlistedBelow.merge ⟨by
            rw [keys_copiedMembers]
            exact distinct.nodup_keys, all⟩ composes
          exact listsNothing_object_iff.mpr
            ⟨fun _ => merged.unlisted, fun member inside => (merged.members member inside).2⟩
        · next other =>
          exact listsNothing_object_iff.mpr
            ⟨fun same => absurd same other, fun member inside => (all member inside).2⟩
      | some reference =>
        have beside := copied (siblings members) fun _ there => (List.mem_filter.mp there).1
        have target : ListsNothing keyword position ((visit root stack reference).value reference
            (expandNode root (reference :: stack) position levels)) := by
          cases visited : visit root stack reference with
          | external | dangling => exact listsNothing_unresolved composes reference
          | cut => exact listsNothing_circular composes reference
          | follow target =>
            obtain ⟨depth, below⟩ := exists_sitsBelow_of_follow visited
            exact inductionHypothesis (rootDistinct.of_sitsBelow below) (rootApart.inside below)
        have unlisted : IsUnlisted keyword
            (copiedMembers root stack position levels (siblings members)) :=
          isUnlisted_copiedSiblings composes levels (apart 0 members (.here _) (by rw [given]; rfl))
        -- Nothing merges these members with the target, so they must list nothing themselves.
        rw [expandNode_of_some given]
        refine listsNothing_overlay target ?_ unlisted fun member inside => (beside member inside).2
        show (copiedMembers root stack position levels (siblings members)).keys.Nodup
        rw [keys_copiedMembers]
        exact nodup_keys_siblings distinct.nodup_keys
    | array items =>
      refine listsNothing_array_iff.mpr fun copy inside => ?_
      obtain ⟨item, there, rfl⟩ := List.mem_map.mp inside
      have below := SitsBelow.item there (.here item)
      exact inductionHypothesis (distinct.of_sitsBelow below) (apart.inside below)
    | _ => exact listsNothing_of_scalar nofun nofun

end

/-- In a copied document no schema holds a list under the keyword of a composition, wherever compositions
were written, if none is written beside a reference. -/
theorem resolve_listsNothing {root : Json} (distinct : root.HasDistinctKeys)
    (apart : ∀ keyword ∈ compositionKeywords, IsApartFromReferences keyword root) :
    ∀ keyword ∈ compositionKeywords, ListsNothing keyword .schema (resolve root) := by
  intro keyword composes
  have same : resolve root = expandNode root [] .schema (maxDepth + 1) root := (agrees_resolve root).value
  rw [same]
  exact listsNothing_expandNode composes distinct (apart keyword composes) (maxDepth + 1) distinct
    (apart keyword composes)

/-- A document in which a reference is one of the parts of a composition and stands beside a text. -/
def composedDocument : Json :=
  .object [("a", .object [("anyOf", .array [.object [("type", .text "object")]])]),
    ("b", .object [("oneOf", .array [.object [("$ref", .text "#/a"), ("title", .text "A")]])])]

theorem resolve_listsNothing_composedDocument :
    composedDocument.HasDistinctKeys ∧
      (∀ keyword ∈ compositionKeywords, IsApartFromReferences keyword composedDocument) ∧
      ∀ keyword ∈ compositionKeywords, ListsNothing keyword .schema (resolve composedDocument) := by
  have distinct : composedDocument.HasDistinctKeys := by
    simp [composedDocument, Json.hasDistinctKeys_object_iff, Json.hasDistinctKeys_array_iff, Members.keys]
  have apart : ∀ keyword ∈ compositionKeywords, IsApartFromReferences keyword composedDocument := by
    simp [composedDocument, compositionKeywords, IsApartFromReferences, Json.eachObject_object_iff,
      Json.eachObject_array_iff, referenceOf?]
  exact ⟨distinct, apart, resolve_listsNothing distinct apart⟩

/-- A document in which a composition stands beside a reference. -/
def besideDocument : Json :=
  .object [("a", .object [("type", .text "object")]),
    ("b", .object [("$ref", .text "#/a"), ("allOf", .array [.object [("title", .text "B")]])])]

theorem resolve_besideDocument_lists :
    ¬ ∀ keyword ∈ compositionKeywords, ListsNothing keyword .schema (resolve besideDocument) := by
  have copied : resolve besideDocument = .object [("a", .object [("type", .text "object")]),
      ("b", .object [("type", .text "object"), ("allOf", .array [.object [("title", .text "B")]])])] := rfl
  intro none
  have top := none "allOf" (by decide)
  rw [copied] at top
  exact top _ (.member (List.mem_cons_of_mem _ List.mem_cons_self) (.here .schema _)) _ rfl

end ApiSurface.OpenApi
