/-
This file weighs texts: a text weighs as many characters as it has that are not blank. Trimming, cutting
into words and joining with spaces leave the weight alone, so it tells whether something was lost when a
text was read and written again in another layout.
-/

import ApiSurface.Proofs.Text.Blank

namespace ApiSurface.Text

/-- The number of characters of a text that are not blank. -/
def weight (text : List Char) : Nat :=
  text.countP fun character => !isBlank character

theorem weight_nil : weight [] = 0 := rfl

theorem weight_append (first second : List Char) :
    weight (first ++ second) = weight first + weight second :=
  List.countP_append

theorem weight_cons_of_blank {first : Char} (blank : isBlank first = true) (rest : List Char) :
    weight (first :: rest) = weight rest :=
  List.countP_cons_of_neg (by rw [blank]; exact Bool.false_ne_true)

theorem weight_cons_of_not_blank {first : Char} (solid : isBlank first = false) (rest : List Char) :
    weight (first :: rest) = weight rest + 1 :=
  List.countP_cons_of_pos (by rw [solid]; rfl)

theorem weight_eq_zero_iff {text : List Char} :
    weight text = 0 ↔ ∀ character ∈ text, isBlank character = true := by
  rw [weight, List.countP_eq_zero]
  exact forall₂_congr fun character _ => by rw [Bool.not_eq_true', Bool.not_eq_false]

theorem weight_flatten_cons (line : List Char) (rest : List (List Char)) :
    weight (line :: rest).flatten = weight line + weight rest.flatten := by
  rw [List.flatten_cons, weight_append]

theorem weight_flatten_append (first second : List (List Char)) :
    weight (first ++ second).flatten = weight first.flatten + weight second.flatten := by
  rw [List.flatten_append, weight_append]

/-- Lines weigh as much as those that pass a test and those that do not. -/
theorem weight_flatten_filter_add (keep : List Char → Bool) (lines : List (List Char)) :
    weight (lines.filter keep).flatten + weight (lines.filter fun line => !keep line).flatten =
      weight lines.flatten := by
  induction lines with
  | nil => rfl
  | cons line rest inductionHypothesis =>
    cases kept : keep line <;> simp only [List.filter_cons, kept, Bool.not_true, Bool.not_false,
      Bool.false_eq_true, if_true, if_false, List.flatten_cons, weight_append] <;> omega

theorem weight_flatten_filter_le (keep : List Char → Bool) (lines : List (List Char)) :
    weight (lines.filter keep).flatten ≤ weight lines.flatten :=
  Nat.le_trans (Nat.le_add_right _ _) (weight_flatten_filter_add keep lines).le

/-! ### Layout -/

/-- Trimming takes nothing away that weighs anything. -/
theorem weight_trim (text : List Char) : weight (trim text) = weight text := by
  obtain ⟨before, behind, whole, start, stop⟩ := exists_eq_append_trim text
  have weighed := congrArg weight whole
  rw [weight_append, weight_append, weight_eq_zero_iff.mpr start, weight_eq_zero_iff.mpr stop] at weighed
  rw [weighed, Nat.zero_add, Nat.add_zero]

theorem weight_words (text : List Char) : weight (words text).flatten = weight text := by
  rw [words, List.flatten_filter_not_isEmpty, flatten_splitOnP]
  simp [weight, List.countP_filter]

theorem weight_spaced (texts : List (List Char)) : weight (spaced texts) = weight texts.flatten := by
  induction texts with
  | nil => rfl
  | cons text rest inductionHypothesis =>
    cases rest with
    | nil => rw [spaced, List.intercalate_singleton, List.flatten_singleton]
    | cons next rest =>
      rw [spaced_cons_cons, weight_append, weight_cons_of_blank (by decide), inductionHypothesis,
        weight_flatten_cons text]

end ApiSurface.Text
