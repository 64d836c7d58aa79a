/-
This file proves that a mark is found at an end of a text exactly if it stands there, and what replacing a
text by another does to a text that is put together from parts. A part without the first character of what
is searched passes through as it is; so whoever knows where these characters stand knows where something is
replaced.
-/

import ApiSurface.Text.Search
import Mathlib.Data.List.Basic

namespace ApiSurface.Text

/-! ### Marks at the ends -/

theorem dropLead?_append (lead rest : List Char) : dropLead? lead (lead ++ rest) = some rest := by
  induction lead with
  | nil => rfl
  | cons first others inductionHypothesis =>
    rw [List.cons_append, dropLead?, if_pos rfl, inductionHypothesis]

theorem dropTail?_append (rest tail : List Char) : dropTail? tail (rest ++ tail) = some rest := by
  rw [dropTail?, List.reverse_append, dropLead?_append, Option.map_some, List.reverse_reverse]

theorem isSome_dropTail?_iff {tail text : List Char} : (dropTail? tail text).isSome ↔ tail <:+ text := by
  constructor
  · intro found
    obtain ⟨rest, dropped⟩ := Option.isSome_iff_exists.mp found
    exact ⟨rest, (eq_append_of_dropTail? dropped).symm⟩
  · rintro ⟨rest, rfl⟩
    rw [dropTail?_append, Option.isSome_some]

/-! ### Replacing -/

variable {pattern replacement : List Char}

theorem replaceFrom_append (skipped rest : List Char) :
    replaceFrom pattern replacement skipped.length (skipped ++ rest) =
      replaceAll pattern replacement rest := by
  induction skipped with
  | nil => rfl
  | cons first others inductionHypothesis => exact inductionHypothesis

/-- An occurrence is replaced, and the search goes on behind it. -/
theorem replaceAll_pattern_append (nonempty : pattern ≠ []) (rest : List Char) :
    replaceAll pattern replacement (pattern ++ rest) =
      replacement ++ replaceAll pattern replacement rest := by
  cases pattern with
  | nil => exact absurd rfl nonempty
  | cons first others =>
    have found : (first :: others).isPrefixOf (first :: (others ++ rest)) = true :=
      List.isPrefixOf_iff_prefix.mpr (List.prefix_append _ _)
    rw [List.cons_append, replaceAll, replaceFrom, if_pos found]
    exact congrArg (replacement ++ ·) (replaceFrom_append others rest)

/-- A character where no occurrence starts is kept. -/
theorem replaceAll_cons_of_not_prefix {first : Char} {rest : List Char}
    (none : ¬ pattern <+: first :: rest) :
    replaceAll pattern replacement (first :: rest) =
      first :: replaceAll pattern replacement rest := by
  rw [replaceAll, replaceFrom, if_neg fun found => none (List.isPrefixOf_iff_prefix.mp found)]
  rfl

theorem replaceAll_cons_of_ne {start first : Char} {others rest : List Char} (different : first ≠ start) :
    replaceAll (start :: others) replacement (first :: rest) =
      first :: replaceAll (start :: others) replacement rest :=
  replaceAll_cons_of_not_prefix fun found => different (List.cons_prefix_cons.mp found).1.symm

/-- A text without the first character of what is searched is kept. -/
theorem replaceAll_append_of_notMem {start : Char} {others kept : List Char} (absent : start ∉ kept)
    (rest : List Char) :
    replaceAll (start :: others) replacement (kept ++ rest) =
      kept ++ replaceAll (start :: others) replacement rest := by
  induction kept with
  | nil => rfl
  | cons first further inductionHypothesis =>
    rw [List.mem_cons, not_or] at absent
    rw [List.cons_append, replaceAll_cons_of_ne (Ne.symm absent.1), inductionHypothesis absent.2,
      List.cons_append]

/-- A text without the second of two characters that are searched is kept, if what comes behind it does
not start with that character. -/
theorem replaceAll_pair_append {start second stop : Char} {kept : List Char} (absent : second ∉ kept)
    (notSecond : stop ≠ second) (rest : List Char) :
    replaceAll [start, second] replacement (kept ++ stop :: rest) =
      kept ++ replaceAll [start, second] replacement (stop :: rest) := by
  induction kept with
  | nil => rfl
  | cons first further inductionHypothesis =>
    rw [List.mem_cons, not_or] at absent
    have none : ¬ [start, second] <+: first :: (further ++ stop :: rest) := by
      intro found
      have behind := (List.cons_prefix_cons.mp found).2
      cases further with
      | nil => exact notSecond (List.cons_prefix_cons.mp behind).1.symm
      | cons next others =>
        exact absent.2 ((List.cons_prefix_cons.mp behind).1 ▸ List.mem_cons_self)
    rw [List.cons_append, replaceAll_cons_of_not_prefix none, inductionHypothesis absent.2,
      List.cons_append]

/-- Replacing a single character is a change of each character by itself. -/
theorem replaceAll_singleton (wanted : Char) (text : List Char) :
    replaceAll [wanted] replacement text =
      text.flatMap fun character => if character = wanted then replacement else [character] := by
  induction text with
  | nil => rfl
  | cons first rest inductionHypothesis =>
    rw [List.flatMap_cons, ← inductionHypothesis]
    by_cases same : first = wanted
    · rw [if_pos same, same]
      exact replaceAll_pattern_append (List.cons_ne_nil _ _) rest
    · rw [if_neg same, replaceAll_cons_of_ne same, List.singleton_append]

/-- If the replacement has none of some characters, those of the text are all that are left of them. -/
theorem filter_replaceFrom_sublist {test : Char → Bool}
    (none : ∀ character ∈ replacement, test character = false) (skip : Nat) (text : List Char) :
    ((replaceFrom pattern replacement skip text).filter test).Sublist (text.filter test) := by
  have nothing : replacement.filter test = [] :=
    List.filter_eq_nil_iff.mpr fun character member => Bool.eq_false_iff.mp (none character member)
  induction text generalizing skip with
  | nil => cases skip <;> exact List.Sublist.refl _
  | cons first rest inductionHypothesis =>
    have dropped : (rest.filter test).Sublist ((first :: rest).filter test) :=
      (List.sublist_cons_self first rest).filter test
    cases skip with
    | succ skip => exact (inductionHypothesis skip).trans dropped
    | zero =>
      rw [replaceFrom]
      split
      · rw [List.filter_append, nothing, List.nil_append]
        exact (inductionHypothesis _).trans dropped
      · rw [List.filter_cons, List.filter_cons]
        split
        · exact (inductionHypothesis 0).cons_cons first
        · exact inductionHypothesis 0

end ApiSurface.Text
