/-
This file compares a copy that was made as a schema with one of the same value that was made as mere data.
Both have the same outline. A type that is a text in the data is one in the schema, and where no
composition stands, every member that does not tell types has its counterpart in the same order.
-/

import ApiSurface.Proofs.OpenApi.Copies
import ApiSurface.Proofs.OpenApi.Kept

namespace ApiSurface.OpenApi

open Json (Members)

/-! ### Outlines -/

/-- A value without what is inside of it. -/
def outline : Json → Json
  | .object _ => .object []
  | .array _ => .array []
  | scalar => scalar

theorem outline_overlay (target : Json) (beside : Members) :
    outline (overlay target beside) = outline target := by
  cases target <;> rfl

/-- The position of a copy does not matter to its outline. -/
theorem outline_expandNode (root : Json) (stack : List String) (position : Position) (levels : Nat)
    (node : Json) :
    outline (expandNode root stack position levels node) =
      outline (expandNode root stack .literal levels node) := by
  induction levels generalizing stack node with
  | zero => rfl
  | succ levels inductionHypothesis =>
    cases node with
    | object members =>
      cases given : referenceOf? members with
      | none => rw [expandNode_of_none given, expandNode_of_none given, outline, outline]
      | some reference =>
        rw [expandNode_of_some given, expandNode_of_some given, outline_overlay, outline_overlay]
        cases visit root stack reference with
        | follow target => exact inductionHypothesis _ target
        | _ => rfl
    | _ => rfl

theorem asText?_eq_of_outline_eq {value other : Json} (same : outline value = outline other) :
    value.asText? = other.asText? := by
  cases value <;> cases other <;> simp_all [outline, Json.asText?]

theorem eq_text_of_asText? {value : Json} {text : String}
    (same : value.asText? = (Json.text text).asText?) : value = .text text := by
  cases value with
  | text other => exact congrArg Json.text (Option.some.inj same)
  | _ => cases same

theorem exists_array_of_outline_eq {other : Json} {items : List Json}
    (same : outline (.array items) = outline other) : ∃ others, other = .array others := by
  cases other with
  | array others => exact ⟨others, rfl⟩
  | _ => cases same

/-! ### Copies as mere data -/

/-- Two copies of one value, of which the second was made as mere data. -/
def IsMirrored (root copy literal : Json) : Prop :=
  ∃ stack position levels node, node.HasDistinctKeys ∧
    copy = expandNode root stack position levels node ∧
    literal = expandNode root stack .literal levels node

theorem IsMirrored.outline_eq {root copy literal : Json} (mirrored : IsMirrored root copy literal) :
    outline copy = outline literal := by
  obtain ⟨stack, position, levels, node, -, rfl, rfl⟩ := mirrored
  exact outline_expandNode root stack position levels node

theorem isMirrored_text (root : Json) (text : String) : IsMirrored root (.text text) (.text text) :=
  ⟨[], .literal, 1, .text text, Json.hasDistinctKeys_text text, rfl, rfl⟩

/-- The members that do not tell types. -/
def apartFromTypes (members : Members) : Members :=
  members.filter fun member => member.1 != "type" && member.1 != "nullable"

/-- Two members of one key that are copies of one value. -/
def AreMirrored (root : Json) (copy literal : String × Json) : Prop :=
  copy.1 = literal.1 ∧ IsMirrored root copy.2 literal.2

/-- The members of two copies of one object, of which the second was made as mere data. -/
structure MirrorsMembers (root : Json) (copies literals : Members) : Prop where
  /-- No key repeats in the first. -/
  distinct : copies.keys.Nodup
  /-- No key repeats in the second. -/
  distinctLiteral : literals.keys.Nodup
  /-- A type that is a text stays. -/
  type : ∀ name, literals.get? "type" = some (.text name) → copies.get? "type" = some (.text name)
  /-- A type that is a text was one before, or was listed, where there is no composition. -/
  typePlain : IsUncomposed (.object literals) → ∀ name, copies.get? "type" = some (.text name) →
    literals.get? "type" = some (.text name) ∨ ∃ types, literals.get? "type" = some (.array types)
  /-- Every other member has its counterpart, where there is no composition. -/
  others : IsUncomposed (.object literals) →
    List.Forall₂ (AreMirrored root) (apartFromTypes copies) (apartFromTypes literals)

section

variable {root : Json} {copies literals : Members}

theorem forall₂_insert (each : List.Forall₂ (AreMirrored root) copies literals) {key : String}
    {copy literal : Json} (mirrored : IsMirrored root copy literal) :
    List.Forall₂ (AreMirrored root) (copies.insert key copy) (literals.insert key literal) := by
  induction each with
  | nil => exact .cons ⟨rfl, mirrored⟩ .nil
  | @cons copied written _ _ first rest inductionHypothesis =>
    obtain ⟨name, old⟩ := copied
    obtain ⟨same, before⟩ := first
    obtain ⟨other, data⟩ := written
    obtain rfl : name = other := same
    unfold Members.insert
    split
    · exact .cons ⟨rfl, mirrored⟩ rest
    · exact .cons ⟨rfl, before⟩ inductionHypothesis

/-- Putting copies of one value under a key keeps members copies of one object. -/
theorem MirrorsMembers.insert (mirrors : MirrorsMembers root copies literals) (key : String)
    {copy literal : Json} (mirrored : IsMirrored root copy literal) :
    MirrorsMembers root (copies.insert key copy) (literals.insert key literal) := by
  have uncomposed (whole : IsUncomposed (.object (literals.insert key literal))) :
      IsUncomposed (.object literals) := by
    intro keyword composes
    have absent := whole keyword composes
    rw [Json.get?, Members.get?_insert] at absent
    split at absent
    · cases absent
    · exact absent
  have text := asText?_eq_of_outline_eq mirrored.outline_eq
  refine ⟨Members.nodup_keys_insert mirrors.distinct key copy,
    Members.nodup_keys_insert mirrors.distinctLiteral key literal, fun name held => ?_,
    fun whole name held => ?_, fun whole => ?_⟩
  · rw [Members.get?_insert] at held ⊢
    split at held
    · next here =>
      rw [Option.some.inj held] at text
      rw [if_pos here, eq_text_of_asText? text]
    · next elsewhere =>
      rw [if_neg elsewhere]
      exact mirrors.type name held
  · rw [Members.get?_insert] at held ⊢
    split at held
    · next here =>
      rw [Option.some.inj held] at text
      exact .inl (by rw [if_pos here, eq_text_of_asText? text.symm])
    · next elsewhere =>
      rw [if_neg elsewhere]
      exact mirrors.typePlain (uncomposed whole) name held
  · have others := mirrors.others (uncomposed whole)
    rw [apartFromTypes, Members.filter_insert fun key => key != "type" && key != "nullable",
      apartFromTypes, Members.filter_insert fun key => key != "type" && key != "nullable"]
    split
    · exact forall₂_insert others mirrored
    · exact others

/-- So does laying members that are copies of the same values over them. -/
theorem MirrorsMembers.insertAll (mirrors : MirrorsMembers root copies literals) (stack : List String)
    (position : Position) (levels : Nat) {beside : Members}
    (distinct : ∀ member ∈ beside, member.2.HasDistinctKeys) :
    MirrorsMembers root (copies.insertAll (copiedMembers root stack position levels beside))
      (literals.insertAll (copiedMembers root stack .literal levels beside)) := by
  induction beside generalizing copies literals with
  | nil => exact mirrors
  | cons first rest inductionHypothesis =>
    obtain ⟨here, further⟩ := List.forall_mem_cons.mp distinct
    exact inductionHypothesis (mirrors.insert first.1 ⟨stack, _, levels, first.2, here, rfl, rfl⟩) further

/-! ### Objects -/

theorem mirrorsMembers_copiedMembers (root : Json) {members : Members}
    (distinct : (Json.object members).HasDistinctKeys) (stack : List String) (position : Position)
    (levels : Nat) :
    MirrorsMembers root (copiedMembers root stack position levels members)
      (copiedMembers root stack .literal levels members) := by
  refine ⟨?_, ?_, fun name held => ?_, fun _ name held => ?_, fun _ => ?_⟩
  · rw [keys_copiedMembers]
    exact distinct.nodup_keys
  · rw [keys_copiedMembers]
    exact distinct.nodup_keys
  · rw [get?_copiedMembers] at held ⊢
    obtain ⟨value, there, data⟩ := Option.map_eq_some_iff.mp held
    have text := asText?_eq_of_outline_eq
      (outline_expandNode root stack (position.ofChild "type") levels value)
    rw [there, Option.map_some, eq_text_of_asText? (text.trans (congrArg Json.asText? data))]
  · rw [get?_copiedMembers] at held ⊢
    obtain ⟨value, there, copied⟩ := Option.map_eq_some_iff.mp held
    have text := asText?_eq_of_outline_eq
      (outline_expandNode root stack (position.ofChild "type") levels value)
    refine .inl ?_
    rw [there, Option.map_some]
    exact congrArg some (eq_text_of_asText? (text.symm.trans (congrArg Json.asText? copied)))
  · have filtered (position : Position) :
        apartFromTypes (copiedMembers root stack position levels members) =
          copiedMembers root stack position levels (apartFromTypes members) := List.filter_map
    rw [filtered, filtered, copiedMembers, copiedMembers, List.forall₂_map_left_iff,
      List.forall₂_map_right_iff, List.forall₂_same]
    intro member inside
    exact ⟨rfl, stack, _, levels, member.2, distinct.of_mem (List.mem_filter.mp inside).1, rfl, rfl⟩

/-- A list of types is one in every copy. -/
theorem exists_listed_of_listed {position : Position} {levels : Nat} {members : Members}
    {types : List Json} {stack : List String}
    (listed : (copiedMembers root stack position levels members).get? "type" = some (.array types)) :
    ∃ others, (copiedMembers root stack .literal levels members).get? "type" =
      some (.array others) := by
  rw [get?_copiedMembers] at listed ⊢
  obtain ⟨value, there, copied⟩ := Option.map_eq_some_iff.mp listed
  have same := outline_expandNode root stack (position.ofChild "type") levels value
  obtain ⟨others, data⟩ := exists_array_of_outline_eq (copied ▸ same)
  exact ⟨others, by rw [there, Option.map_some]; exact congrArg some data⟩

theorem isUncomposed_copiedMembers_iff {stack : List String} {position : Position} {levels : Nat}
    {members : Members} :
    IsUncomposed (.object (copiedMembers root stack position levels members)) ↔
      IsUncomposed (.object members) := by
  refine forall₂_congr fun keyword _ => ?_
  rw [Json.get?, Json.get?, get?_copiedMembers, Option.map_eq_none_iff]

theorem apartFromTypes_normalizeTypes (schema : Members) :
    apartFromTypes (normalizeTypes schema) = apartFromTypes schema := by
  have keep := Members.filter_insert fun key => key != "type" && key != "nullable"
  rcases normalizeTypes_cases schema with same | ⟨types, -, typed, rfl | ⟨single, rfl⟩, same | same⟩ <;>
    simp [same, apartFromTypes, keep]

theorem mirrorsMembers_merge (root : Json) {members : Members}
    (distinct : (Json.object members).HasDistinctKeys) (stack : List String) (position : Position)
    (levels : Nat) :
    MirrorsMembers root (merge (copiedMembers root stack position levels members))
      (copiedMembers root stack .literal levels members) := by
  have unmerged := mirrorsMembers_copiedMembers root distinct stack position levels
  have typesOnly (whole : IsUncomposed (.object (copiedMembers root stack .literal levels members))) :
      merge (copiedMembers root stack position levels members) =
        normalizeTypes (copiedMembers root stack position levels members) :=
    merge_of_isUncomposed
      (isUncomposed_copiedMembers_iff.mpr (isUncomposed_copiedMembers_iff.mp whole))
  refine ⟨nodup_keys_merge unmerged.distinct, unmerged.distinctLiteral, fun name held => ?_,
    fun whole name held => ?_, fun whole => ?_⟩
  · have text := unmerged.type name held
    refine (keeps_type_merge unmerged.distinct fun types listed => ?_).kept _ text
    rw [text] at listed
    cases listed
  · rw [typesOnly whole] at held
    -- a text may have been made of a list of one type
    by_cases listed : ∃ types, (copiedMembers root stack position levels members).get? "type" =
        some (.array types)
    · obtain ⟨types, listed⟩ := listed
      exact .inr (exists_listed_of_listed listed)
    · rw [normalizeTypes_eq_self (not_exists.mp listed)] at held
      exact unmerged.typePlain whole name held
  · rw [typesOnly whole, apartFromTypes_normalizeTypes]
    exact unmerged.others whole

/-- A mark is a copy of itself. -/
theorem mirrorsMembers_of_texts {members : Members} (distinct : members.keys.Nodup)
    (texts : ∀ member ∈ members, ∃ text, member.2 = .text text) :
    MirrorsMembers root members members := by
  refine ⟨distinct, distinct, fun _ => id, fun _ _ => .inl, fun _ => List.forall₂_same.mpr ?_⟩
  intro member inside
  obtain ⟨text, same⟩ := texts member (List.mem_filter.mp inside).1
  exact ⟨rfl, same ▸ isMirrored_text root text⟩

theorem mirrorsMembers_circular {reference : String} (copied : circular reference = .object copies) :
    MirrorsMembers root copies copies := by
  obtain rfl := Json.object.inj copied
  exact mirrorsMembers_of_texts (by simp [Members.keys, circularKey]) (by simp)

theorem mirrorsMembers_unresolved {reference : String} (copied : unresolved reference = .object copies) :
    MirrorsMembers root copies copies := by
  obtain rfl := Json.object.inj copied
  exact mirrorsMembers_of_texts (List.nodup_singleton _) (by simp)

theorem eq_object_of_overlay {target : Json} {beside : Members}
    (laid : overlay target beside = .object copies) :
    ∃ members, target = .object members ∧ copies = Members.insertAll members beside := by
  cases target with
  | object members => exact ⟨members, rfl, (Json.object.inj laid).symm⟩
  | _ => cases laid

/-- A copy that is an object mirrors the one that was made as mere data. -/
theorem mirrorsMembers_expandNode (rootDistinct : root.HasDistinctKeys) {stack : List String}
    {position : Position} {levels : Nat} {node : Json} (distinct : node.HasDistinctKeys)
    (copied : expandNode root stack position levels node = .object copies)
    (data : expandNode root stack .literal levels node = .object literals) :
    MirrorsMembers root copies literals := by
  induction levels generalizing stack node copies literals with
  | zero =>
    obtain rfl := Json.object.inj (copied.symm.trans data)
    exact mirrorsMembers_circular copied
  | succ levels inductionHypothesis =>
    cases node with
    | object members =>
      cases given : referenceOf? members with
      | none =>
        rw [expandNode_of_none given] at copied data
        have copies := Json.object.inj copied
        have literals := Json.object.inj data
        dsimp only at copies literals
        rw [if_neg (by decide)] at literals
        rw [← copies, ← literals]
        split
        · exact mirrorsMembers_merge root distinct stack position levels
        · exact mirrorsMembers_copiedMembers root distinct stack position levels
      | some reference =>
        rw [expandNode_of_some given] at copied data
        have beside : ∀ member ∈ siblings members, member.2.HasDistinctKeys := fun member inside =>
          distinct.of_mem (List.mem_filter.mp inside).1
        obtain ⟨target, made, rfl⟩ := eq_object_of_overlay copied
        obtain ⟨dataTarget, dataMade, rfl⟩ := eq_object_of_overlay data
        refine MirrorsMembers.insertAll ?_ stack position levels beside
        cases visited : visit root stack reference with
        | external | dangling =>
          rw [visited] at made dataMade
          obtain rfl := Json.object.inj (made.symm.trans dataMade)
          exact mirrorsMembers_unresolved made
        | cut =>
          rw [visited] at made dataMade
          obtain rfl := Json.object.inj (made.symm.trans dataMade)
          exact mirrorsMembers_circular made
        | follow inner =>
          rw [visited] at made dataMade
          obtain ⟨depth, below⟩ := exists_sitsBelow_of_follow visited
          exact inductionHypothesis (rootDistinct.of_sitsBelow below) made dataMade
    | _ => cases copied

/-! ### Parts of copies -/

theorem IsMirrored.cases {copy literal : Json} (rootDistinct : root.HasDistinctKeys)
    (mirrored : IsMirrored root copy literal) :
    (∃ copies literals, copy = .object copies ∧ literal = .object literals ∧
        MirrorsMembers root copies literals) ∨
      copy.asObject? = none ∧ literal.asObject? = none := by
  have same := mirrored.outline_eq
  obtain ⟨stack, position, levels, node, distinct, copied, data⟩ := mirrored
  cases copy with
  | object copies =>
    cases literal with
    | object literals =>
      exact .inl ⟨copies, literals, rfl, rfl,
        mirrorsMembers_expandNode rootDistinct distinct copied.symm data.symm⟩
    | _ => cases same
  | _ =>
    cases literal with
    | object literals => cases same
    | _ => exact .inr ⟨rfl, rfl⟩

theorem get?_eq_none_of_asObject? {value : Json} (noObject : value.asObject? = none) (key : String) :
    value.get? key = none := by
  cases value with
  | object members => cases noObject
  | _ => rfl

theorem rel_find?_of_forall₂ (each : List.Forall₂ (AreMirrored root) copies literals)
    (wanted : String → Bool) :
    Option.Rel (AreMirrored root) (copies.find? fun member => wanted member.1)
      (literals.find? fun member => wanted member.1) := by
  induction each with
  | nil => exact .none
  | @cons copy literal _ _ first rest inductionHypothesis =>
    rw [List.find?_cons, List.find?_cons, first.1]
    cases wanted literal.1 with
    | true => exact .some first
    | false => exact inductionHypothesis

/-- The first member of a kind that does not tell types has its counterpart. -/
theorem MirrorsMembers.rel_find? (mirrors : MirrorsMembers root copies literals)
    (uncomposed : IsUncomposed (.object literals)) (wanted : String → Bool)
    (notType : wanted "type" = false) (notNullable : wanted "nullable" = false) :
    Option.Rel (AreMirrored root) (copies.find? fun member => wanted member.1)
      (literals.find? fun member => wanted member.1) := by
  have apart (members : Members) : (apartFromTypes members).find? (fun member => wanted member.1) =
      members.find? fun member => wanted member.1 := by
    rw [apartFromTypes, List.find?_filter]
    refine congrArg (List.find? · members) (funext fun member => ?_)
    by_cases typed : member.1 = "type"
    · simp [typed, notType]
    · by_cases flagged : member.1 = "nullable"
      · simp [flagged, notNullable]
      · simp [typed, flagged]
  rw [← apart copies, ← apart literals]
  exact rel_find?_of_forall₂ (mirrors.others uncomposed) wanted

/-- What stands under a keyword that does not tell types has its counterpart. -/
theorem IsMirrored.rel_get? {copy literal : Json} (mirrored : IsMirrored root copy literal)
    (rootDistinct : root.HasDistinctKeys) (uncomposed : IsUncomposed literal) {key : String}
    (notType : key ≠ "type") (notNullable : key ≠ "nullable") :
    Option.Rel (IsMirrored root) (copy.get? key) (literal.get? key) := by
  rcases mirrored.cases rootDistinct with ⟨copies, literals, rfl, rfl, mirrors⟩ | ⟨noCopy, noLiteral⟩
  · have found := mirrors.rel_find? uncomposed (· == key) (beq_false_of_ne (Ne.symm notType))
      (beq_false_of_ne (Ne.symm notNullable))
    rw [Json.get?, Json.get?, Members.get?_eq_find?, Members.get?_eq_find?]
    generalize copies.find? (fun member => member.1 == key) = first,
      literals.find? (fun member => member.1 == key) = second at found ⊢
    cases found with
    | some both => exact .some both.2
    | none => exact .none
  · rw [get?_eq_none_of_asObject? noCopy, get?_eq_none_of_asObject? noLiteral]
    exact .none

theorem IsMirrored.textAt?_eq {copy literal : Json} (mirrored : IsMirrored root copy literal)
    (rootDistinct : root.HasDistinctKeys) (uncomposed : IsUncomposed literal) {key : String}
    (notType : key ≠ "type") (notNullable : key ≠ "nullable") :
    copy.textAt? key = literal.textAt? key := by
  have related := mirrored.rel_get? rootDistinct uncomposed notType notNullable
  unfold Json.textAt?
  generalize copy.get? key = first, literal.get? key = second at related ⊢
  cases related with
  | some inner => exact asText?_eq_of_outline_eq inner.outline_eq
  | none => rfl

end

end ApiSurface.OpenApi
