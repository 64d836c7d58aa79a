/-
This file counts how often one text occurs inside another. Of a text that is put together from parts the
count is the sum over the parts, if no occurrence lies across a border; for a pattern of two characters
it is enough to know that what follows the border does not start with the second one. A pattern without
a line feed therefore occurs in the lines of a text as often as in the text. What is replaced in a text is
told by the same count.
-/

import ApiSurface.Proofs.Text.Line
import ApiSurface.Proofs.Text.Search
import Mathlib.Algebra.GroupWithZero.Nat
import Mathlib.Data.List.Induction

namespace ApiSurface.Text

/-- How often a pattern occurs in a text; occurrences may overlap. -/
def occurrences (pattern : List Char) : List Char → Nat
  | [] => if pattern.isEmpty then 1 else 0
  | first :: rest =>
    (if pattern.isPrefixOf (first :: rest) then 1 else 0) + occurrences pattern rest

theorem occursIn_eq_false_iff {pattern text : List Char} :
    occursIn pattern text = false ↔ occurrences pattern text = 0 := by
  induction text with
  | nil => simp [occursIn, occurrences]
  | cons first rest inductionHypothesis =>
    cases found : pattern.isPrefixOf (first :: rest) <;>
      simp only [occursIn, occurrences, found] <;> simp [inductionHypothesis]

theorem occurrences_pos_of_append (pattern text : List Char) :
    0 < occurrences pattern (text ++ pattern) := by
  induction text with
  | nil =>
    cases pattern with
    | nil => exact Nat.one_pos
    | cons first rest =>
      have here : (first :: rest).isPrefixOf (first :: rest) = true :=
        List.isPrefixOf_iff_prefix.mpr (List.prefix_refl _)
      rw [List.nil_append, occurrences, if_pos here]
      exact Nat.add_pos_left Nat.one_pos _
  | cons first rest inductionHypothesis =>
    rw [List.cons_append, occurrences]
    exact Nat.add_pos_right _ inductionHypothesis

variable {start second : Char}

/-- A character that is not the first one of the pattern starts no occurrence. -/
theorem occurrences_cons_of_ne {first : Char} (different : first ≠ start) (rest : List Char) :
    occurrences [start, second] (first :: rest) = occurrences [start, second] rest := by
  simp [occurrences, different.symm]

theorem occurrences_append_of_notMem {kept : List Char} (absent : start ∉ kept) (rest : List Char) :
    occurrences [start, second] (kept ++ rest) = occurrences [start, second] rest := by
  induction kept with
  | nil => rfl
  | cons first others inductionHypothesis =>
    rw [List.mem_cons, not_or] at absent
    rw [List.cons_append, occurrences_cons_of_ne (Ne.symm absent.1), inductionHypothesis absent.2]

theorem occurrences_of_notMem {text : List Char} (absent : second ∉ text) :
    occurrences [start, second] text = 0 := by
  induction text with
  | nil => rfl
  | cons first rest inductionHypothesis =>
    rw [List.mem_cons, not_or] at absent
    have none : ¬[start, second].isPrefixOf (first :: rest) = true := fun found =>
      absent.2 ((List.cons_prefix_cons.mp (List.isPrefixOf_iff_prefix.mp found)).2.subset
        List.mem_cons_self)
    rw [occurrences, if_neg none, inductionHypothesis absent.2]

/-- No occurrence lies across the border before a character that is not the second one. -/
theorem occurrences_append_cons {next : Char} (different : next ≠ second) (left right : List Char) :
    occurrences [start, second] (left ++ next :: right) =
      occurrences [start, second] left + occurrences [start, second] (next :: right) := by
  induction left with
  | nil => simp [occurrences]
  | cons first rest inductionHypothesis =>
    rw [List.cons_append, occurrences, occurrences, inductionHypothesis]
    have same : [start, second].isPrefixOf (first :: (rest ++ next :: right)) =
        [start, second].isPrefixOf (first :: rest) := by
      cases rest with
      | nil => simp [List.isPrefixOf, different.symm]
      | cons _ _ => simp [List.isPrefixOf]
    rw [same, Nat.add_assoc]

/-- A line feed parts a text for a pattern that holds none. -/
theorem occurrences_lineFeed (noStart : '\n' ≠ start) (noSecond : '\n' ≠ second)
    (line rest : List Char) :
    occurrences [start, second] (line ++ '\n' :: rest) =
      occurrences [start, second] line + occurrences [start, second] rest := by
  rw [occurrences_append_cons noSecond, occurrences_cons_of_ne noStart]

theorem occurrences_joinLines (noStart : '\n' ≠ start) (noSecond : '\n' ≠ second)
    (pieces : List (List Char)) :
    occurrences [start, second] (joinLines pieces) =
      (pieces.map (occurrences [start, second])).sum := by
  induction pieces with
  | nil => rfl
  | cons line rest inductionHypothesis =>
    cases rest with
    | nil => simp [joinLines_singleton]
    | cons next others =>
      rw [joinLines_cons_cons, occurrences_lineFeed noStart noSecond, inductionHypothesis]
      simp

theorem occurrences_dropReturn (noStart : '\r' ≠ start) (noSecond : '\r' ≠ second)
    (line : List Char) :
    occurrences [start, second] (dropReturn line) = occurrences [start, second] line := by
  unfold dropReturn
  split
  · next last =>
    obtain ⟨before, rfl⟩ := List.getLast?_eq_some_iff.mp last
    rw [List.dropLast_concat, occurrences_append_cons noSecond, occurrences_cons_of_ne noStart]
    simp [occurrences]
  · rfl

theorem occurrences_linesOfPieces (noStart : '\r' ≠ start) (noSecond : '\r' ≠ second)
    (pieces : List (List Char)) :
    ((linesOfPieces pieces).map (occurrences [start, second])).sum =
      (pieces.map (occurrences [start, second])).sum := by
  induction pieces with
  | nil => rfl
  | cons line rest inductionHypothesis =>
    cases rest with
    | nil => cases line <;> simp [linesOfPieces, occurrences]
    | cons next others =>
      rw [linesOfPieces, List.map_cons, List.sum_cons, inductionHypothesis,
        occurrences_dropReturn noStart noSecond, ← List.sum_cons, ← List.map_cons]

/-- A pattern that holds no character of a line ending occurs in the lines of a text as often as in the
text. -/
theorem sum_occurrences_lines (noStart : start ≠ '\n' ∧ start ≠ '\r')
    (noSecond : second ≠ '\n' ∧ second ≠ '\r') (text : List Char) :
    ((lines text).map (occurrences [start, second])).sum = occurrences [start, second] text := by
  rw [lines, ← List.splitOn_eq_splitOnP,
    occurrences_linesOfPieces noStart.2.symm noSecond.2.symm,
    ← occurrences_joinLines noStart.1.symm noSecond.1.symm, joinLines, List.intercalate_splitOn]

/-! ### Replacing -/

/-- A text in which nothing is found stays as it is. -/
theorem replaceAll_of_occurrences_eq_zero {pattern replacement text : List Char}
    (none : occurrences pattern text = 0) : replaceAll pattern replacement text = text := by
  induction text with
  | nil => rfl
  | cons first rest inductionHypothesis =>
    rw [occurrences, Nat.add_eq_zero_iff] at none
    rw [ replaceAll_cons_of_not_prefix, inductionHypothesis none.2]
    intro found
    rw [if_pos (List.isPrefixOf_iff_prefix.mpr found)] at none
    exact absurd none.1 Nat.one_ne_zero

/-- A text loses a character with each occurrence of two that only the second one is written for. -/
theorem length_replaceAll_pair {start second : Char} (different : start ≠ second) (text : List Char) :
    (replaceAll [start, second] [second] text).length + occurrences [start, second] text = text.length := by
  induction text using List.twoStepInduction with
  | nil => rfl
  | singleton first => simp [replaceAll, replaceFrom, occurrences, List.isPrefixOf]
  | cons_cons first next rest shorter later =>
    by_cases found : [start, second] <+: first :: next :: rest
    · obtain ⟨rfl, behind⟩ := List.cons_prefix_cons.mp found
      obtain ⟨rfl, -⟩ := List.cons_prefix_cons.mp behind
      have replaced : replaceAll [start, second] [second] (start :: second :: rest) =
          second :: replaceAll [start, second] [second] rest :=
        replaceAll_pattern_append (List.cons_ne_nil _ _) rest
      rw [replaced, occurrences, if_pos (by simp), occurrences_cons_of_ne (Ne.symm different)]
      simp only [List.length_cons]
      omega
    · have here : ¬[start, second].isPrefixOf (first :: next :: rest) = true :=
        mt List.isPrefixOf_iff_prefix.mp found
      rw [ replaceAll_cons_of_not_prefix found, occurrences, if_neg here, List.length_cons, List.length_cons,
        ← later next]
      omega
end ApiSurface.Text
