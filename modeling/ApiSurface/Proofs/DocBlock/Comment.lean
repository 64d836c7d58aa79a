/-
This file proves how often the mark that closes a comment stands in a comment that is put around a text:
once at its end and, because nothing is escaped, wherever the text itself has it. The gutter adds none,
since a blank follows its asterisk, and the lines of a text hold as many as the text. So a comment
extends over the whole of its text exactly if the text does not hold the mark.
-/

import ApiSurface.DocBlock.Comment
import ApiSurface.Proofs.TypeScript.BlockComment

namespace ApiSurface.DocBlock

open Text (occurrences occurrences_append_of_notMem occurrences_cons_of_ne)
open TypeScript.Lexer (PassesOver closingMark)

section

variable {indent : List Char} (blank : ∀ character ∈ indent, Text.isBlank character = true)

include blank

theorem asterisk_notMem : '*' ∉ indent := fun member => absurd (blank _ member) (by decide)

/-- The gutter of a line adds no closing mark to it. -/
theorem occurrences_gutterLine (line rest : List Char) :
    occurrences closingMark (gutterLine indent line ++ rest) =
      occurrences closingMark line + occurrences closingMark rest := by
  have absent := asterisk_notMem blank
  unfold gutterLine
  split
  · next empty =>
    rw [List.isEmpty_iff.mp empty, List.append_assoc, closingMark, occurrences_append_of_notMem absent]
    simp [occurrences, List.isPrefixOf]
  · rw [List.append_assoc, List.append_assoc, closingMark, occurrences_append_of_notMem absent]
    have behind : occurrences ['*', '/'] (line ++ '\n' :: rest) =
        occurrences ['*', '/'] line + occurrences ['*', '/'] rest :=
      Text.occurrences_lineFeed (by decide) (by decide) line rest
    simp [occurrences, List.isPrefixOf, behind]

theorem occurrences_gutterLines (lines : List (List Char)) (rest : List Char) :
    occurrences closingMark (lines.flatMap (gutterLine indent) ++ rest) =
      (lines.map (occurrences closingMark)).sum + occurrences closingMark rest := by
  induction lines with
  | nil => simp
  | cons line others inductionHypothesis =>
    rw [List.flatMap_cons, List.append_assoc, occurrences_gutterLine blank, inductionHypothesis,
      List.map_cons, List.sum_cons, Nat.add_assoc]

/-- A comment holds one closing mark more than its text. -/
theorem occurrences_commentChars (text : List Char) :
    occurrences closingMark (commentChars text indent) = occurrences closingMark text + 1 := by
  have absent := asterisk_notMem blank
  have opening (rest : List Char) :
      occurrences closingMark ("/**\n".toList ++ rest) = occurrences closingMark rest := by
    simp [closingMark, occurrences, List.isPrefixOf]
  have lines : ((Text.lines text).map (occurrences ['*', '/'])).sum = occurrences ['*', '/'] text :=
    Text.sum_occurrences_lines (by decide) (by decide) text
  unfold commentChars
  rw [List.append_assoc, List.append_assoc, List.append_assoc, closingMark,
    occurrences_append_of_notMem absent, ← closingMark, opening, occurrences_gutterLines blank]
  rw [closingMark, occurrences_append_of_notMem absent, lines]
  rfl

end

theorem commentChars_eq (text indent : List Char) :
    commentChars text indent =
      indent ++ '/' :: '*' :: ('*' :: '\n' :: ((Text.lines text).flatMap (gutterLine indent) ++
        indent ++ [' ']) ++ closingMark) := by
  simp [commentChars, closingMark]

/-- A comment around a text without the closing mark is passed over as a whole. -/
theorem passesOver_commentChars {indent text : List Char}
    (blank : ∀ character ∈ indent, Text.isBlank character = true)
    (none : occurrences closingMark text = 0) : PassesOver (commentChars text indent) := by
  have count := occurrences_commentChars blank text
  rw [none, commentChars_eq, closingMark, occurrences_append_of_notMem (asterisk_notMem blank),
    occurrences_cons_of_ne (by decide), ← closingMark] at count
  rw [commentChars_eq]
  exact (TypeScript.Lexer.passesOver_of_blank blank).append
    (TypeScript.Lexer.passesOver_comment
      (by simpa [closingMark, occurrences, List.isPrefixOf] using count))

/-- A comment around a text ends with the mark that closes it and holds this mark nowhere else exactly if
the text does not hold it. Then the comment extends over the whole text: it is passed over, and what
comes next is read as if it were not there. -/
theorem closes_at_end_iff {indent : String}
    (blank : ∀ character ∈ indent.toList, Text.isBlank character = true) (text : String) :
    closingMark <:+ (toComment text indent).toList ∧
      (occurrences closingMark (toComment text indent).toList = 1 ↔
        Text.occursIn closingMark text.toList = false) ∧
      (Text.occursIn closingMark text.toList = false →
        PassesOver (toComment text indent).toList) := by
  rw [toComment, String.toList_ofList, Text.occursIn_eq_false_iff]
  refine ⟨?_, ?_, passesOver_commentChars blank⟩
  · rw [commentChars_eq, ← List.cons_append, ← List.cons_append, ← List.append_assoc]
    exact List.suffix_append _ _
  · rw [occurrences_commentChars blank]
    exact Nat.add_eq_right

/-- Marks that only look like the one that closes a comment. -/
theorem closes_at_end_iff_lookalikes :
    (∀ character ∈ " \t".toList, Text.isBlank character = true) ∧
      occurrences closingMark (toComment "*\n/ * / /* **\r\n/" " \t").toList = 1 ∧
      PassesOver (toComment "*\n/ * / /* **\r\n/" " \t").toList := by
  have blank : ∀ character ∈ " \t".toList, Text.isBlank character = true :=
    List.all_eq_true.mp (by decide)
  have none : Text.occursIn closingMark "*\n/ * / /* **\r\n/".toList = false := by decide
  obtain ⟨-, once, passes⟩ := closes_at_end_iff blank "*\n/ * / /* **\r\n/"
  exact ⟨blank, once.mpr none, passes none⟩

/-- A text that holds the mark ends its comment, and the rest of it is read as code. -/
theorem toComment_breaks_out :
    occurrences closingMark (toComment "Lists pets. */ alert(1); /*" "").toList = 2 ∧
      (TypeScript.tokens (toComment "Lists pets. */ alert(1); /*" "")).map TypeScript.Token.text =
        ["alert", "(", "1", ")", ";"] := by
  decide +kernel

end ApiSurface.DocBlock
