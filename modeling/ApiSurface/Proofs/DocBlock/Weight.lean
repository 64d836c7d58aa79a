/-
This file proves that reading adds nothing: what a block that was read writes below its headers weighs no
more than the parts of the text that it was read from. The head of an entry is written with no more than
the name, the type and the marks that it was read from, its text is folded, and putting entries by name
only leaves some out. Tags are left out of this account, because quotation marks are put around some.
-/

import ApiSurface.Proofs.DocBlock.Reading
import ApiSurface.Proofs.Text.Weight
import Mathlib.Algebra.GroupWithZero.Nat
import Mathlib.Algebra.Order.BigOperators.Group.List
import Mathlib.Algebra.Order.Group.Nat

namespace ApiSurface.DocBlock

open Text (weight weight_append weight_flatten_cons weight_flatten_append)

/-! ### Layout -/

theorem weight_folded (lines : List (List Char)) : weight (folded lines) = weight lines.flatten := by
  have trimmed : weight (lines.map Text.trim).flatten = weight lines.flatten := by
    induction lines with
    | nil => rfl
    | cons line rest inductionHypothesis =>
      rw [List.map_cons, weight_flatten_cons, weight_flatten_cons, Text.weight_trim,
        inductionHypothesis]
  rw [← trimmed, ← List.flatten_filter_not_isEmpty]
  exact Text.weight_spaced _

/-- Wrapping adds nothing to the head and the text of an entry but blanks. -/
theorem weight_wrapEntry (head text : List Char) :
    weight (wrapEntry head text).flatten = weight head + weight text := by
  obtain ⟨taken, groups, dealt, -, -, wrapped⟩ := exists_layout head text
  have behind : weight (behindHead head taken) = weight taken.flatten := by
    unfold behindHead separator
    split
    · next none => rw [List.isEmpty_iff.mp none]; rfl
    · rw [weight_append, Text.weight_spaced]
      split <;> exact Nat.zero_add _
  have further : weight (groups.map continuationLine).flatten = weight groups.flatten.flatten := by
    clear dealt wrapped
    induction groups with
    | nil => rfl
    | cons group rest inductionHypothesis =>
      rw [List.map_cons, weight_flatten_cons, List.flatten_cons, weight_flatten_append,
        inductionHypothesis, continuationLine, weight_append, Text.weight_spaced]
      exact congrArg (· + _) (Nat.zero_add _)
  rw [wrapped, weight_flatten_cons, weight_append, behind, further, ← Text.weight_words text, dealt,
    weight_flatten_append, Nat.add_assoc]

theorem weight_flatMap_wrapEntry {Item : Type} (items : List Item) (head text : Item → List Char) :
    weight (items.flatMap fun item => wrapEntry (head item) (text item)).flatten =
      (items.map fun item => weight (head item) + weight (text item)).sum := by
  induction items with
  | nil => rfl
  | cons item rest inductionHypothesis =>
    rw [List.flatMap_cons, weight_flatten_append, weight_wrapEntry, inductionHypothesis, List.map_cons,
      List.sum_cons]

/-! ### Entries -/

section

variable {Head : Type} {head? : List Char → Option (Head × List Char)} {written : Head → List Char}
  (light : ∀ line head text, head? line = some (head, text) →
    weight (written head) + weight text ≤ weight line)

include light

theorem weight_gather_le (base : Nat) (lines : List (List Char)) :
    weight (gather head? base lines).1.flatten +
      ((gather head? base lines).2.map fun entry =>
        weight (written entry.1) + weight entry.2.flatten).sum ≤ weight lines.flatten := by
  induction lines with
  | nil => exact Nat.le_refl _
  | cons line rest inductionHypothesis =>
    rcases gather_cons_cases base line rest with ⟨head, text, read, same⟩ | same
    · have here := light _ head text read
      rw [Text.weight_trim] at here
      rw [same]
      simp only [List.map_cons, List.sum_cons, List.flatten_cons, List.flatten_nil, weight_append,
        Text.weight_nil]
      omega
    · rw [same]
      simp only [List.flatten_cons, weight_append]
      omega

theorem sum_entries_le (lines : List (List Char)) :
    ((entries head? lines).map fun entry => weight (written entry.1) + weight entry.2).sum ≤
      weight lines.flatten := by
  have gathered := weight_gather_le light ((lines.head?.map indentation).getD 0) lines
  rw [entries, List.map_map]
  simp only [Function.comp_def, weight_folded]
  exact Nat.le_trans (Nat.le_add_left _ _) gathered

theorem sum_flatMap_entries_le (each : List (List (List Char))) :
    ((each.flatMap (entries head?)).map fun entry =>
      weight (written entry.1) + weight entry.2).sum ≤ weight each.flatten.flatten := by
  induction each with
  | nil => exact Nat.le_refl _
  | cons lines rest inductionHypothesis =>
    have here := sum_entries_le light lines
    rw [List.flatMap_cons, List.map_append, List.sum_append, List.flatten_cons, weight_flatten_append]
    omega

variable {Item Key : Type} [DecidableEq Key] {key : Item → Key} {itemOf : Head × List Char → Item}
  {cost : Item → Nat}

/-- What is put from the parts of a section weighs no more than the parts. -/
theorem sum_putAll_entries_le
    (costs : ∀ entry, cost (itemOf entry) = weight (written entry.1) + weight entry.2)
    (each : List (List (List Char))) :
    ((Keyed.putAll key [] ((each.flatMap (entries head?)).map itemOf)).map cost).sum ≤
      weight each.flatten.flatten := by
  refine Nat.le_trans (Keyed.sum_map_putAll_le cost [] _) ?_
  rw [List.map_map]
  simp only [Function.comp_def, costs, List.map_nil, List.sum_nil, Nat.zero_add]
  exact sum_flatMap_entries_le light each

end

theorem weight_entryIndent_append (text : List Char) : weight (entryIndent ++ text) = weight text := by
  rw [weight_append]
  exact Nat.zero_add _

/-- What stands in parentheses was in parentheses already. -/
theorem weight_hintText_le {hint inner : List Char}
    (hinted : hint = [] ∨ ∃ before written after,
      inner = before ++ '(' :: written ++ ')' :: after ∧ hint = Text.trim written) :
    weight (hintText (if hint.isEmpty then none else some (String.ofList hint))) ≤ weight inner := by
  split
  · exact Nat.zero_le _
  · next filled =>
    rcases hinted with rfl | ⟨before, written, after, rfl, rfl⟩
    · exact absurd rfl filled
    · simp only [hintText, String.toList_ofList, weight_append, Text.weight_trim,
        Text.weight_nil, Text.weight_cons_of_blank (show Text.isBlank ' ' = true by decide),
        Text.weight_cons_of_not_blank (show Text.isBlank '(' = false by decide),
        Text.weight_cons_of_not_blank (show Text.isBlank ')' = false by decide)]
      omega

/-- The head of an argument weighs no more than what it was read from. -/
theorem weight_argumentHead_le (line : List Char) (head : List Char × List Char) (text : List Char)
    (read : argumentHead? line = some (head, text)) :
    weight (argumentHead (argumentOf (head, []))) + weight text ≤ weight line := by
  obtain ⟨name, hint⟩ := head
  obtain ⟨-, -, -, inner, tail, rfl, rfl, hinted⟩ := exists_of_argumentHead? read
  have inside := weight_hintText_le hinted
  rw [argumentHead_eq, weight_entryIndent_append, argumentOf, String.toList_ofList]
  simp only [weight_append, Text.weight_trim, Text.weight_nil,
    Text.weight_cons_of_not_blank (show Text.isBlank ':' = false by decide)]
  omega

theorem weight_failureHead_le (line kind text : List Char)
    (read : failureHead? line = some (kind, text)) :
    weight (failureHead (failureOf (kind, []))) + weight text ≤ weight line := by
  obtain ⟨-, inner, tail, rfl, rfl, -⟩ := exists_of_failureHead? read
  rw [failureHead, failureOf, String.toList_ofList, List.append_assoc, weight_entryIndent_append,
    Text.weight_trim]
  simp only [weight_append, Text.weight_nil,
    Text.weight_cons_of_not_blank (show Text.isBlank ':' = false by decide)]
  omega

/-! ### Blocks -/

/-- The sections below the summary that are written without quotation marks. -/
def bodySections : List Section := [.arguments, .returns, .failures]

theorem mem_bodySections_iff (opened : Section) : opened ∈ bodySections ↔ opened ≠ .tags := by
  cases opened <;> decide

/-- What a block that was read writes below a header weighs no more than the parts of that section. -/
theorem weight_linesUnder_parse_le (text : String) {opened : Section} (body : opened ∈ bodySections) :
    weight ((parse text).linesUnder opened).flatten ≤
      weight (partsOf opened (parts (Text.lines text.toList)).2).flatten.flatten := by
  cases opened with
  | arguments =>
    rw [linesUnder, weight_flatMap_wrapEntry, parse_arguments]
    exact sum_putAll_entries_le weight_argumentHead_le (fun entry => by
      rw [argumentOf, String.toList_ofList]; rfl) _
  | returns =>
    have whole : weight ((parse text).linesUnder .returns).flatten =
        weight (parse text).returns.toList := by
      rw [linesUnder]
      split
      · next empty => rw [String.isEmpty_iff.mp empty]; rfl
      · rw [weight_wrapEntry]
        exact Nat.zero_add _
    rw [whole, parse_returns, weight_folded]
  | failures =>
    rw [linesUnder, weight_flatMap_wrapEntry, parse_failures]
    exact sum_putAll_entries_le weight_failureHead_le (fun entry => by
      rw [failureOf, String.toList_ofList]; rfl) _
  | tags => exact absurd rfl ((mem_bodySections_iff _).mp body)

/-- The weight of the parts that hold no tags. -/
def bodyWeight (found : List (Section × List (List Char))) : Nat :=
  (found.map fun part => if part.1 = .tags then 0 else weight part.2.flatten).sum

theorem weight_partsOf_cons_le (wanted opened : Section) (lines : List (List Char))
    (rest : List (Section × List (List Char))) :
    weight (partsOf wanted ((opened, lines) :: rest)).flatten.flatten ≤
      (if opened = wanted then weight lines.flatten else 0) +
        weight (partsOf wanted rest).flatten.flatten := by
  by_cases same : opened = wanted
  · have first : partsOf wanted ((opened, lines) :: rest) =
        lines.filter isFilled :: partsOf wanted rest := by
      rw [partsOf, List.filter_cons, if_pos (beq_iff_eq.mpr same)]
      rfl
    rw [first, if_pos same, List.flatten_cons, weight_flatten_append]
    exact Nat.add_le_add_right (Text.weight_flatten_filter_le isFilled lines) _
  · have others : partsOf wanted ((opened, lines) :: rest) = partsOf wanted rest := by
      rw [partsOf, List.filter_cons, if_neg (mt beq_iff_eq.mp same)]
      rfl
    rw [others, if_neg same, Nat.zero_add]

theorem sum_partsOf_le (found : List (Section × List (List Char))) :
    (bodySections.map fun opened => weight (partsOf opened found).flatten.flatten).sum ≤
      bodyWeight found := by
  induction found with
  | nil => exact Nat.le_refl _
  | cons part rest inductionHypothesis =>
    obtain ⟨opened, lines⟩ := part
    have whole : bodyWeight ((opened, lines) :: rest) =
        (if opened = .tags then 0 else weight lines.flatten) + bodyWeight rest := rfl
    have arguments := weight_partsOf_cons_le .arguments opened lines rest
    have returns := weight_partsOf_cons_le .returns opened lines rest
    have failures := weight_partsOf_cons_le .failures opened lines rest
    simp only [bodySections, List.map_cons, List.map_nil, List.sum_cons, List.sum_nil] at *
    cases opened <;> simp only [reduceCtorEq, if_true, if_false] at * <;> omega

/-- What a block that was read writes without quotation marks weighs no more than the parts that hold no
tags. -/
theorem sum_linesUnder_parse_le (text : String) :
    (bodySections.map fun opened => weight ((parse text).linesUnder opened).flatten).sum ≤
      bodyWeight (parts (Text.lines text.toList)).2 := by
  refine Nat.le_trans ?_ (sum_partsOf_le _)
  exact List.sum_le_sum fun opened member => weight_linesUnder_parse_le text member

end ApiSurface.DocBlock
