/-
This file proves which members the operations on objects leave. None of them makes up a member: what
is there afterwards was there before or was put, so a property of single members that the new ones have
is never lost. Members with pairwise different keys stay as they are when they are put one after the
other. Each operation is also told by what is found under a key after it.
-/

import ApiSurface.Json.Value
import ApiSurface.Proofs.Keyed
import Mathlib.Data.List.Perm.Subperm
import Mathlib.Data.List.TakeDrop
import Mathlib.Data.List.TakeWhile

namespace ApiSurface.Json.Members

variable {members : Members} {key : String} {value : Json}

theorem mem_of_get? (found : members.get? key = some value) : (key, value) ∈ members :=
  Keyed.mem_of_lookup found

theorem exists_get?_of_mem (member : (key, value) ∈ members) :
    ∃ first, members.get? key = some first := by
  cases found : members.get? key with
  | some first => exact ⟨first, rfl⟩
  | none =>
    have absent := List.lookup_eq_none_iff.mp found (key, value) member
    exact absurd rfl (bne_iff_ne.mp absent)

theorem insert_eq_put : members.insert key value = Keyed.put Prod.fst (key, value) members := by
  induction members with
  | nil => rfl
  | cons first rest inductionHypothesis =>
    unfold insert Keyed.put
    split
    · next same => rw [same]
    · rw [inductionHypothesis]

theorem insertAll_eq_putAll (members added : Members) :
    members.insertAll added = Keyed.putAll Prod.fst members added := by
  rw [insertAll, Keyed.putAll]
  exact congrArg (List.foldl · members added) (funext₂ fun _ _ => insert_eq_put)

theorem mem_of_mem_insert {member : String × Json} (inside : member ∈ members.insert key value) :
    member ∈ members ∨ member = (key, value) :=
  Keyed.mem_of_mem_put (insert_eq_put ▸ inside)

/-- Members with pairwise different keys are put in their order. -/
theorem ofList_of_nodup (distinct : (members.map Prod.fst).Nodup) : ofList members = members :=
  (insertAll_eq_putAll [] members).trans (Keyed.putAll_of_nodup distinct)

theorem nodup_keys_ofList (members : Members) : (ofList members).keys.Nodup := by
  have none : (([] : Members).map Prod.fst).Nodup := List.nodup_nil
  rw [ofList, insertAll_eq_putAll]
  exact Keyed.nodup_map_putAll none members

theorem mem_of_mem_ofList {member : String × Json} (inside : member ∈ ofList members) :
    member ∈ members := by
  rw [ofList, insertAll_eq_putAll] at inside
  exact (Keyed.mem_of_mem_putAll inside).resolve_left List.not_mem_nil

/-- Taking a key out leaves out its first member, if it has one, and moves the others. -/
theorem erase_cases (members : Members) (key : String) :
    (key ∉ members.keys ∧ members.erase key = members) ∨
      ∃ before gone after, members = before ++ gone :: after ∧ gone.1 = key ∧
        (members.erase key).Perm (before ++ after) := by
  have whole : members.takeWhile (fun member => member.1 != key) ++
      members.dropWhile (fun member => member.1 != key) = members := List.takeWhile_append_dropWhile
  have stopped := List.head?_dropWhile_not (fun member : String × Json => member.1 != key) members
  unfold erase
  rw [List.span_eq_takeWhile_dropWhile]
  cases rest : members.dropWhile (fun member => member.1 != key) with
  | nil =>
    rw [rest, List.append_nil] at whole
    refine .inl ⟨fun known => ?_, whole⟩
    obtain ⟨member, there, rfl⟩ := List.mem_map.mp known
    exact absurd (List.dropWhile_eq_nil_iff.mp rest member there) (by simp)
  | cons gone after =>
    rw [rest] at whole stopped
    refine .inr ⟨_, gone, after, whole.symm, by simpa using stopped, ?_⟩
    dsimp only
    cases final : after.getLast? with
    | none => rw [List.getLast?_eq_none_iff.mp final, List.append_nil]
    | some last =>
      refine List.Perm.append_left _ ?_
      conv_rhs => rw [← List.dropLast_append_getLast? last final]
      exact (List.perm_append_singleton last _).symm

theorem erase_subperm (members : Members) (key : String) : (members.erase key).Subperm members := by
  rcases erase_cases members key with ⟨-, same⟩ | ⟨before, gone, after, whole, -, moved⟩
  · rw [same]
  · conv_rhs => rw [whole]
    exact moved.subperm.trans ((List.sublist_cons_self gone after).append_left before).subperm

theorem mem_of_mem_erase {member : String × Json} (inside : member ∈ members.erase key) :
    member ∈ members :=
  (erase_subperm members key).subset inside

/-! ### Keys -/

theorem keys_insert_of_mem (known : key ∈ members.keys) :
    (members.insert key value).keys = members.keys := by
  rw [insert_eq_put]
  exact Keyed.map_put_of_mem known

theorem insert_of_notMem (new : key ∉ members.keys) :
    members.insert key value = members ++ [(key, value)] := by
  rw [insert_eq_put, Keyed.put_of_notMem new]

theorem keys_insert_of_notMem (new : key ∉ members.keys) :
    (members.insert key value).keys = members.keys ++ [key] := by
  rw [insert_of_notMem new, keys, List.map_append]
  rfl

theorem notMem_keys_of_get?_eq_none (missing : members.get? key = none) : key ∉ members.keys := by
  intro known
  obtain ⟨member, there, rfl⟩ := List.mem_map.mp known
  exact absurd (List.lookup_eq_none_iff.mp missing member there) (by simp)

theorem contains_eq_true_iff : members.contains key = true ↔ key ∈ members.keys := by
  rw [contains, List.any_eq_true, keys, List.mem_map]
  exact exists_congr fun member => and_congr_right' beq_iff_eq

theorem insertNew_of_notMem (new : key ∉ members.keys) :
    members.insertNew key value = members.insert key value := by
  rw [insertNew, if_neg fun known => new (contains_eq_true_iff.mp known), insert_of_notMem new]

theorem insertNew_of_mem (known : key ∈ members.keys) : members.insertNew key value = members :=
  if_pos (contains_eq_true_iff.mpr known)

theorem keys_erase_subperm (members : Members) (key : String) :
    (members.erase key).keys.Subperm members.keys := by
  obtain ⟨ordered, same, inside⟩ := erase_subperm members key
  exact ⟨ordered.map Prod.fst, same.map _, inside.map _⟩

/-! ### Values -/

@[simp] theorem get?_nil (key : String) : get? [] key = none := rfl

@[simp] theorem get?_cons (name : String) (value : Json) (rest : Members) (key : String) :
    get? ((name, value) :: rest) key = if key = name then some value else rest.get? key := by
  rw [get?, List.lookup_cons]
  by_cases same : key = name
  · rw [if_pos same, beq_iff_eq.mpr same]
  · rw [if_neg same, beq_false_of_ne same, get?]

theorem get?_append (members others : Members) (key : String) :
    get? (members ++ others) key = (members.get? key).or (others.get? key) :=
  List.lookup_append

theorem get?_eq_none_of_notMem (missing : key ∉ members.keys) : members.get? key = none := by
  refine List.lookup_eq_none_iff.mpr fun member there => bne_iff_ne.mpr ?_
  rintro rfl
  exact missing (List.mem_map_of_mem there)

theorem get?_insert (members : Members) (key : String) (value : Json) (other : String) :
    (members.insert key value).get? other = if other = key then some value else members.get? other := by
  induction members with
  | nil => simp [insert]
  | cons first rest inductionHypothesis =>
    obtain ⟨name, old⟩ := first
    unfold insert
    by_cases here : name = key
    · by_cases wanted : other = key <;> simp [here, wanted]
    · rw [if_neg here, get?_cons, get?_cons, inductionHypothesis]
      by_cases wanted : other = name
      · rw [if_pos wanted, if_pos wanted, if_neg (wanted ▸ here)]
      · rw [if_neg wanted, if_neg wanted]

theorem get?_insertNew (members : Members) (key : String) (value : Json) (other : String) :
    (members.insertNew key value).get? other =
      (members.get? other).or (if other = key then some value else none) := by
  by_cases known : key ∈ members.keys
  · rw [insertNew_of_mem known]
    by_cases same : other = key
    · obtain ⟨member, there, rfl⟩ := List.mem_map.mp known
      obtain ⟨first, found⟩ := exists_get?_of_mem there
      rw [same, found, Option.some_or]
    · rw [if_neg same, Option.or_none]
  · rw [insertNew_of_notMem known, insert_of_notMem known, get?_append, get?_cons, get?_nil]

theorem get?_eq_find? (members : Members) (key : String) :
    members.get? key = (members.find? fun member => member.1 == key).map Prod.snd := by
  induction members with
  | nil => rfl
  | cons first rest inductionHypothesis =>
    obtain ⟨name, value⟩ := first
    rw [get?_cons, List.find?_cons]
    by_cases same : name = key
    · rw [if_pos same.symm, beq_iff_eq.mpr same]
      rfl
    · rw [if_neg (Ne.symm same), beq_false_of_ne same, inductionHypothesis]

/-- Putting a member does not change the others that are left when some keys are left out. -/
theorem filter_insert (keep : String → Bool) (members : Members) (key : String) (value : Json) :
    (members.insert key value).filter (fun member => keep member.1) =
      if keep key then insert (members.filter fun member => keep member.1) key value
      else members.filter fun member => keep member.1 := by
  induction members with
  | nil => cases kept : keep key <;> simp [insert, kept]
  | cons first rest inductionHypothesis =>
    obtain ⟨name, old⟩ := first
    by_cases same : name = key
    · subst same
      cases kept : keep name <;> simp [insert, kept]
    · cases kept : keep key <;> cases keptFirst : keep name <;>
        simp [insert, same, kept, keptFirst, inductionHypothesis]

/-- Of the members that are put one after the other, the last one of a key counts. -/
theorem get?_insertAll (members added : Members) (key : String) :
    (members.insertAll added).get? key = (get? added.reverse key).or (members.get? key) := by
  induction added generalizing members with
  | nil => rfl
  | cons first rest inductionHypothesis =>
    obtain ⟨name, value⟩ := first
    show ((members.insert name value).insertAll rest).get? key = _
    rw [inductionHypothesis, get?_insert, List.reverse_cons, get?_append, Option.or_assoc]
    by_cases same : key = name <;> simp [same]

/-- Of the members that are put where there is none of their key, the first one of a key counts. -/
theorem get?_foldl_insertNew (members added : Members) (key : String) :
    (added.foldl (fun members entered => members.insertNew entered.1 entered.2) members).get? key =
      (members.get? key).or (added.get? key) := by
  induction added generalizing members with
  | nil => rw [List.foldl_nil, get?_nil, Option.or_none]
  | cons first rest inductionHypothesis =>
    obtain ⟨name, value⟩ := first
    rw [List.foldl_cons, inductionHypothesis, get?_insertNew, Option.or_assoc, get?_cons]
    by_cases same : key = name <;> simp [same]

/-! ### Pairwise different keys -/

theorem get?_eq_some_iff (distinct : members.keys.Nodup) :
    members.get? key = some value ↔ (key, value) ∈ members := by
  refine ⟨mem_of_get?, fun member => ?_⟩
  obtain ⟨first, found⟩ := exists_get?_of_mem member
  have same := List.inj_on_of_nodup_map distinct (mem_of_get? found) member rfl
  rw [found, (Prod.mk.inj same).2]

theorem get?_reverse (distinct : members.keys.Nodup) (key : String) :
    get? members.reverse key = members.get? key := by
  have reversed : keys members.reverse = members.keys.reverse := List.map_reverse
  ext value
  rw [get?_eq_some_iff distinct, get?_eq_some_iff (reversed ▸ List.nodup_reverse.mpr distinct),
    List.mem_reverse]

theorem nodup_keys_insert (distinct : members.keys.Nodup) (key : String) (value : Json) :
    (members.insert key value).keys.Nodup := by
  rw [insert_eq_put]
  exact Keyed.nodup_map_put distinct (key, value)

theorem nodup_keys_erase (distinct : members.keys.Nodup) (key : String) :
    (members.erase key).keys.Nodup := by
  obtain ⟨ordered, same, inside⟩ := keys_erase_subperm members key
  exact same.nodup_iff.mp (distinct.sublist inside)

theorem mem_erase_iff (distinct : members.keys.Nodup) {member : String × Json} :
    member ∈ members.erase key ↔ member ∈ members ∧ member.1 ≠ key := by
  rcases erase_cases members key with ⟨missing, same⟩ | ⟨before, gone, after, rfl, rfl, moved⟩
  · rw [same]
    refine (and_iff_left_of_imp fun inside => ?_).symm
    rintro rfl
    exact missing (List.mem_map_of_mem inside)
  · have others : ∀ member ∈ before ++ after, member.1 ≠ gone.1 := by
      intro member inside same
      rw [keys, List.map_append, List.map_cons, List.nodup_middle, List.nodup_cons, ← List.map_append]
        at distinct
      exact distinct.1 (same ▸ List.mem_map_of_mem inside)
    have here : member ∈ before ++ gone :: after ↔ member = gone ∨ member ∈ before ++ after := by
      rw [← List.mem_cons]
      exact List.perm_middle.mem_iff
    rw [moved.mem_iff, here]
    constructor
    · exact fun inside => ⟨.inr inside, others member inside⟩
    · rintro ⟨rfl | inside, different⟩
      · exact absurd rfl different
      · exact inside

theorem get?_erase (distinct : members.keys.Nodup) (key other : String) :
    (members.erase key).get? other = if other = key then none else members.get? other := by
  ext value
  rw [get?_eq_some_iff (nodup_keys_erase distinct key), mem_erase_iff distinct]
  by_cases same : other = key
  · simp [same]
  · simp [same, get?_eq_some_iff distinct]

end ApiSurface.Json.Members
