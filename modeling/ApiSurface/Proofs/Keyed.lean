/-
This file proves what putting elements by key does to a list. An element with a new key goes to the
end, so a list whose keys are pairwise different is put together again as it was, and the keys of any
list stand in the order of their first appearance. In a list of pairs, what stands under a key does not
depend on the others.
-/

import ApiSurface.Keyed
import Mathlib.Algebra.GroupWithZero.Nat
import Mathlib.Data.List.Induction
import Mathlib.Data.List.Nodup
import Mathlib.Data.List.Perm.Basic

namespace ApiSurface.Keyed

variable {Element Key : Type} [DecidableEq Key] {key : Element → Key}

theorem put_of_notMem {element : Element} {elements : List Element}
    (new : key element ∉ elements.map key) : put key element elements = elements ++ [element] := by
  induction elements with
  | nil => rfl
  | cons first rest inductionHypothesis =>
    rw [List.map_cons, List.mem_cons, not_or] at new
    rw [put, if_neg (Ne.symm new.1), inductionHypothesis new.2, List.cons_append]

theorem map_put_of_mem {element : Element} {elements : List Element}
    (known : key element ∈ elements.map key) :
    (put key element elements).map key = elements.map key := by
  induction elements with
  | nil => exact absurd known List.not_mem_nil
  | cons first rest inductionHypothesis =>
    unfold put
    split
    · next same => rw [List.map_cons, List.map_cons, same]
    · next different =>
      have later := (List.mem_cons.mp known).resolve_left (Ne.symm different)
      exact congrArg (key first :: ·) (inductionHypothesis later)

theorem nodup_map_put {elements : List Element} (distinct : (elements.map key).Nodup)
    (element : Element) : ((put key element elements).map key).Nodup := by
  by_cases known : key element ∈ elements.map key
  · rwa [map_put_of_mem known]
  · rw [put_of_notMem known, List.map_append]
    refine List.nodup_append.mpr ⟨distinct, List.nodup_singleton _, ?_⟩
    rintro _ there last inside rfl
    exact known (List.mem_singleton.mp inside ▸ there)

/-- However elements are put, no key repeats if none did before. -/
theorem nodup_map_putAll {elements : List Element} (distinct : (elements.map key).Nodup)
    (added : List Element) : ((putAll key elements added).map key).Nodup := by
  induction added generalizing elements with
  | nil => exact distinct
  | cons first rest inductionHypothesis => exact inductionHypothesis (nodup_map_put distinct first)

theorem mem_of_mem_put {element other : Element} {elements : List Element}
    (inside : other ∈ put key element elements) : other ∈ elements ∨ other = element := by
  induction elements with
  | nil => exact .inr (List.mem_singleton.mp inside)
  | cons first rest inductionHypothesis =>
    unfold put at inside
    split at inside
    · exact (List.mem_cons.mp inside).symm.imp_left (List.mem_cons_of_mem _)
    · rcases List.mem_cons.mp inside with rfl | further
      · exact .inl List.mem_cons_self
      · exact (inductionHypothesis further).imp_left (List.mem_cons_of_mem _)

theorem mem_of_mem_putAll {other : Element} {elements added : List Element}
    (inside : other ∈ putAll key elements added) : other ∈ elements ∨ other ∈ added := by
  induction added generalizing elements with
  | nil => exact .inl inside
  | cons first rest inductionHypothesis =>
    rcases inductionHypothesis inside with put | further
    · refine (mem_of_mem_put put).imp_right fun same => ?_
      rw [same]
      exact List.mem_cons_self
    · exact .inr (List.mem_cons_of_mem _ further)

theorem mem_put_self (element : Element) (elements : List Element) :
    element ∈ put key element elements := by
  induction elements with
  | nil => exact List.mem_cons_self
  | cons first rest inductionHypothesis =>
    unfold put
    split
    · exact List.mem_cons_self
    · exact List.mem_cons_of_mem _ inductionHypothesis

theorem mem_put_of_ne {element other : Element} {elements : List Element} (inside : other ∈ elements)
    (different : key other ≠ key element) : other ∈ put key element elements := by
  induction elements with
  | nil => exact absurd inside List.not_mem_nil
  | cons first rest inductionHypothesis =>
    unfold put
    rcases List.mem_cons.mp inside with rfl | further
    · rw [if_neg different]
      exact List.mem_cons_self
    · split
      · exact List.mem_cons_of_mem _ further
      · exact List.mem_cons_of_mem _ (inductionHypothesis further)

/-- An element stays if none of its key is put. -/
theorem mem_putAll_of_notMem {other : Element} {elements added : List Element}
    (inside : other ∈ elements) (different : key other ∉ added.map key) :
    other ∈ putAll key elements added := by
  induction added generalizing elements with
  | nil => exact inside
  | cons first rest inductionHypothesis =>
    rw [List.map_cons, List.mem_cons, not_or] at different
    exact inductionHypothesis (mem_put_of_ne inside different.1) different.2

/-- Of the elements of a key that are put, the last stays. -/
theorem mem_putAll_of_last {elements before after : List Element} {element : Element}
    (last : key element ∉ after.map key) :
    element ∈ putAll key elements (before ++ element :: after) := by
  have put : putAll key elements (before ++ element :: after) =
      putAll key (Keyed.put key element (putAll key elements before)) after := List.foldl_append
  rw [put]
  exact mem_putAll_of_notMem (mem_put_self element _) last

omit [DecidableEq Key] in
/-- If there are elements of a key, one of them is the last. -/
theorem exists_last_of_mem {wanted : Key} {elements : List Element}
    (known : wanted ∈ elements.map key) :
    ∃ before element after, elements = before ++ element :: after ∧ key element = wanted ∧
      wanted ∉ after.map key := by
  induction elements with
  | nil => exact absurd known List.not_mem_nil
  | cons first rest inductionHypothesis =>
    by_cases further : wanted ∈ rest.map key
    · obtain ⟨before, element, after, whole, same, last⟩ := inductionHypothesis further
      exact ⟨first :: before, element, after, congrArg (first :: ·) whole, same, last⟩
    · have same := (List.mem_cons.mp known).resolve_right further
      exact ⟨[], first, rest, rfl, same.symm, further⟩

omit [DecidableEq Key] in
/-- Lists with the same keys in the same order are the same if no key stands for two elements. -/
theorem eq_of_map_eq {first second : List Element} (same : first.map key = second.map key)
    (single : ∀ left ∈ first, ∀ right ∈ second, key left = key right → left = right) :
    first = second := by
  induction first generalizing second with
  | nil => exact (List.map_eq_nil_iff.mp same.symm).symm
  | cons left lefts inductionHypothesis =>
    cases second with
    | nil => cases same
    | cons right rights =>
      obtain ⟨here, further⟩ := List.cons.inj same
      rw [single left List.mem_cons_self right List.mem_cons_self here,
        inductionHypothesis further fun left inLefts right inRights =>
          single left (List.mem_cons_of_mem _ inLefts) right (List.mem_cons_of_mem _ inRights)]

/-- Whatever elements weigh, all of them together weigh no less than what is left of them. -/
theorem sum_map_putAll_le (cost : Element → Nat) (elements added : List Element) :
    ((putAll key elements added).map cost).sum ≤ (elements.map cost).sum + (added.map cost).sum := by
  have one (element : Element) (elements : List Element) :
      ((put key element elements).map cost).sum ≤ (elements.map cost).sum + cost element := by
    induction elements with
    | nil => simp [put]
    | cons first rest inductionHypothesis =>
      unfold put
      split <;> simp only [List.map_cons, List.sum_cons] <;> omega
  induction added generalizing elements with
  | nil => exact Nat.le_refl _
  | cons first rest inductionHypothesis =>
    have here := one first elements
    have later := inductionHypothesis (put key first elements)
    rw [List.map_cons, List.sum_cons]
    exact Nat.le_trans later (by omega)

/-- Elements with new and pairwise different keys are added in their order. -/
theorem putAll_of_nodup {elements added : List Element}
    (distinct : ((elements ++ added).map key).Nodup) :
    putAll key elements added = elements ++ added := by
  induction added generalizing elements with
  | nil => rw [List.append_nil]; rfl
  | cons first rest inductionHypothesis =>
    have new : key first ∉ elements.map key := by
      rw [List.map_append, List.nodup_append] at distinct
      exact fun member => distinct.2.2 _ member _ List.mem_cons_self rfl
    rw [List.append_cons] at distinct ⊢
    show putAll key (put key first elements) rest = _
    rw [put_of_notMem new]
    exact inductionHypothesis distinct

/-! ### First appearance -/

section

omit [DecidableEq Key]

variable [BEq Element] [LawfulBEq Element]

theorem eraseDups_concat (before : List Element) (last : Element) :
    (before ++ [last]).eraseDups =
      before.eraseDups ++ if last ∈ before then [] else [last] := by
  rw [List.eraseDups_append]
  by_cases known : last ∈ before
  · simp [List.removeAll, known]
  · simp [List.removeAll, known, List.eraseDups_cons]

theorem nodup_eraseDups (elements : List Element) : elements.eraseDups.Nodup := by
  induction elements using List.reverseRecOn with
  | nil => exact List.nodup_nil
  | append_singleton before last inductionHypothesis =>
    rw [eraseDups_concat]
    split
    · rw [List.append_nil]
      exact inductionHypothesis
    · next new =>
      refine inductionHypothesis.append (List.nodup_singleton last) ?_
      rw [List.disjoint_singleton, List.mem_eraseDups]
      exact new

theorem eraseDups_of_nodup {elements : List Element} (distinct : elements.Nodup) :
    elements.eraseDups = elements := by
  induction elements using List.reverseRecOn with
  | nil => rfl
  | append_singleton before last inductionHypothesis =>
    obtain ⟨earlier, -, apart⟩ := List.nodup_append.mp distinct
    have new : last ∉ before := fun there => apart last there last (List.mem_singleton_self last) rfl
    rw [eraseDups_concat, if_neg new, inductionHypothesis earlier]

/-- Repetitions that are gone already make no difference. -/
theorem eraseDups_append_eraseDups (before after : List Element) :
    (before.eraseDups ++ after.eraseDups).eraseDups = (before ++ after).eraseDups := by
  induction after using List.reverseRecOn with
  | nil =>
    have nothing : ([] : List Element).eraseDups = [] := rfl
    rw [nothing, List.append_nil, List.append_nil, eraseDups_of_nodup (nodup_eraseDups before)]
  | append_singleton after last inductionHypothesis =>
    rw [eraseDups_concat, ← List.append_assoc before after, eraseDups_concat]
    by_cases known : last ∈ after
    · rw [if_pos known, if_pos (List.mem_append_right before known), List.append_nil, List.append_nil]
      exact inductionHypothesis
    · have same : last ∈ before.eraseDups ++ after.eraseDups ↔ last ∈ before ++ after := by
        rw [List.mem_append, List.mem_append, List.mem_eraseDups, List.mem_eraseDups]
      rw [if_neg known, ← List.append_assoc, eraseDups_concat, inductionHypothesis]
      simp only [same]

end

/-- The keys of elements that are put one after the other stand in the order of their first appearance. -/
theorem map_putAll [BEq Key] [LawfulBEq Key] {elements : List Element}
    (distinct : (elements.map key).Nodup) (added : List Element) :
    (putAll key elements added).map key = (elements.map key ++ added.map key).eraseDups := by
  induction added using List.reverseRecOn with
  | nil =>
    rw [List.map_nil, List.append_nil, eraseDups_of_nodup distinct]
    rfl
  | append_singleton added last inductionHypothesis =>
    have put : putAll key elements (added ++ [last]) = Keyed.put key last (putAll key elements added) :=
      List.foldl_append
    rw [put, List.map_append, ← List.append_assoc, List.map_singleton, eraseDups_concat,
      ← inductionHypothesis]
    have known : key last ∈ (putAll key elements added).map key ↔
        key last ∈ elements.map key ++ added.map key := by
      rw [inductionHypothesis, List.mem_eraseDups]
    by_cases there : key last ∈ elements.map key ++ added.map key
    · rw [if_pos there, map_put_of_mem (known.mpr there), List.append_nil]
    · rw [if_neg there, put_of_notMem (mt known.mp there), List.map_append, List.map_singleton]

/-- Elements that are put go behind those that are there, unless their keys are. -/
theorem map_putAll_of_nodup [BEq Key] [LawfulBEq Key] {elements : List Element}
    (distinct : (elements.map key).Nodup) (added : List Element) :
    (putAll key elements added).map key =
      elements.map key ++ ((added.map key).filter fun new => new ∉ elements.map key).eraseDups := by
  rw [map_putAll distinct, List.eraseDups_append, eraseDups_of_nodup distinct]
  refine congrArg (_ ++ List.eraseDups ·) (List.filter_congr fun new _ => ?_)
  rw [List.elem_eq_mem, decide_not]

/-! ### Groups -/

/-- Elements that pass one of two tests, none of them both, are those that pass the first and those
that pass the second. -/
theorem filter_append_filter_perm {Element : Type} {first second : Element → Bool}
    (elements : List Element) (apart : ∀ element, first element = true → second element = false) :
    (elements.filter first ++ elements.filter second).Perm
      (elements.filter fun element => first element || second element) := by
  have passFirst : (elements.filter fun element => first element || second element).filter first =
      elements.filter first := by
    rw [List.filter_filter]
    refine List.filter_congr fun element _ => ?_
    cases first element <;> simp
  have passSecond : (elements.filter fun element => first element || second element).filter
      (fun element => !first element) = elements.filter second := by
    rw [List.filter_filter]
    refine List.filter_congr fun element _ => ?_
    cases passes : first element with
    | true => simp [apart element passes]
    | false => simp
  rw [← passFirst, ← passSecond]
  exact List.filter_append_perm first _

/-- Sorting elements by pairwise different keys only takes those that have one of the keys, each of them
once. -/
theorem flatMap_filter_perm {keys : List Key} (distinct : keys.Nodup) (elements : List Element) :
    (keys.flatMap fun wanted => elements.filter fun element => key element = wanted).Perm
      (elements.filter fun element => key element ∈ keys) := by
  induction keys with
  | nil =>
    rw [List.flatMap_nil, List.filter_eq_nil_iff.mpr fun element _ => by simp]
  | cons first rest inductionHypothesis =>
    obtain ⟨new, distinct⟩ := List.nodup_cons.mp distinct
    rw [List.flatMap_cons]
    refine ((inductionHypothesis distinct).append_left _).trans ?_
    refine (filter_append_filter_perm elements fun element here => ?_).trans (.of_eq ?_)
    · rw [of_decide_eq_true here]
      exact decide_eq_false new
    · exact List.filter_congr fun element _ => by simp [Bool.decide_or]

/-! ### Pairs -/

section

variable {Value Result : Type} {entries : List (Key × Value)} {wanted : Key}

theorem mem_of_lookup {value : Value} (found : entries.lookup wanted = some value) :
    (wanted, value) ∈ entries := by
  obtain ⟨before, after, whole, -⟩ := List.lookup_eq_some_iff.mp found
  rw [whole]
  exact List.mem_append_right _ List.mem_cons_self

/-- Leaving other keys out does not change what stands under a key. -/
theorem lookup_filter {keep : Key → Bool} (kept : keep wanted = true) :
    (entries.filter fun entry => keep entry.1).lookup wanted = entries.lookup wanted := by
  induction entries with
  | nil => rfl
  | cons first rest inductionHypothesis =>
    obtain ⟨name, value⟩ := first
    by_cases same : wanted = name
    · subst same
      rw [List.filter_cons, if_pos kept, List.lookup_cons_self, List.lookup_cons_self]
    · rw [List.lookup_cons, beq_false_of_ne same, List.filter_cons]
      split
      · rw [List.lookup_cons, beq_false_of_ne same]
        exact inductionHypothesis
      · exact inductionHypothesis

/-- What stands under a key is changed as the key says. -/
theorem lookup_map (change : Key → Value → Result) :
    (entries.map fun entry => (entry.1, change entry.1 entry.2)).lookup wanted =
      (entries.lookup wanted).map (change wanted) := by
  induction entries with
  | nil => rfl
  | cons first rest inductionHypothesis =>
    obtain ⟨name, value⟩ := first
    rw [List.map_cons, List.lookup_cons, List.lookup_cons]
    by_cases same : wanted = name
    · subst same
      rw [beq_self_eq_true]
      rfl
    · rw [beq_false_of_ne same]
      exact inductionHypothesis

end

end ApiSurface.Keyed
