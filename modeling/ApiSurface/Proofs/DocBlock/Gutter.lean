/-
This file proves which texts are read back from the comment that is put around them. Trimming a comment
and taking its marks off leaves the lines with their gutters, between an empty line and the indentation of
the closing mark. A line comes out from behind its gutter whatever it starts with, because only one
asterisk and one space are taken and the gutter has both; an empty line has the asterisk alone, so nothing
of the next line is taken for it. Only the blanks at the ends of lines and the line feeds around the text
are lost, so exactly the tight texts are read back.
-/

import ApiSurface.DocBlock.Comment
import ApiSurface.Proofs.Text.Search
import ApiSurface.Proofs.Text.Trimmed

namespace ApiSurface.DocBlock

/-! ### Lines behind gutters -/

/-- A line of a comment, without its line feed. -/
def behindGutter (indent line : List Char) : List Char :=
  indent ++ ' ' :: '*' :: if line.isEmpty then [] else ' ' :: line

theorem gutterLine_eq (indent line : List Char) :
    gutterLine indent line = behindGutter indent line ++ ['\n'] := by
  unfold gutterLine behindGutter
  split <;> simp

section

variable {indent : List Char} (blank : ∀ character ∈ indent, Text.isBlank character = true)

include blank

theorem trimStart_gutter (rest : List Char) :
    Text.trimStart (indent ++ ' ' :: '*' :: rest) = '*' :: rest := by
  rw [Text.trimStart_append_of_blank blank, Text.trimStart_cons_of_blank (by decide),
    Text.trimStart_cons_of_not_blank (by decide)]

/-- A line comes out from behind its gutter, but for the blanks at its end. -/
theorem withoutGutter_behindGutter (line : List Char) :
    withoutGutter (Text.dropReturn (behindGutter indent line)) = Text.trimEnd line := by
  have gutter (rest : List Char) : Text.dropReturn (indent ++ ' ' :: '*' :: rest) =
      indent ++ ' ' :: '*' :: Text.dropReturn rest := by
    simpa using Text.dropReturn_append_cons (show '*' ≠ '\r' by decide) (indent ++ [' ']) rest
  rw [behindGutter, gutter, withoutGutter, trimStart_gutter blank]
  cases line with
  | nil => rfl
  | cons first rest =>
    have space : Text.dropReturn (' ' :: first :: rest) = ' ' :: Text.dropReturn (first :: rest) :=
      Text.dropReturn_append_cons (show ' ' ≠ '\r' by decide) [] (first :: rest)
    simp only [List.isEmpty_cons, Bool.false_eq_true, if_false, space, Text.dropLead?, if_true,
      Option.getD_some]
    exact Text.trimEnd_dropReturn _

variable (plain : '\n' ∉ indent)

include plain

omit blank in
theorem lineFeed_notMem_behindGutter {line : List Char} (own : '\n' ∉ line) :
    '\n' ∉ behindGutter indent line := by
  unfold behindGutter
  split <;> simp [plain, own]

theorem map_withoutGutter_lines {lines : List (List Char)} (own : ∀ line ∈ lines, '\n' ∉ line) :
    (Text.lines (lines.flatMap (gutterLine indent) ++ (indent ++ [' ']))).map withoutGutter =
      lines.map Text.trimEnd ++ [[]] := by
  induction lines with
  | nil =>
    have last : '\n' ∉ indent ++ [' '] := by simp [plain]
    have empty : Text.trimStart (indent ++ [' ']) = [] := Text.trimStart_append_of_blank blank [' ']
    simp [Text.lines_of_notMem last, withoutGutter, empty, Text.dropLead?, Text.trimEnd,
      Text.dropEndWhile]
  | cons line rest inductionHypothesis =>
    obtain ⟨here, further⟩ := List.forall_mem_cons.mp own
    rw [List.flatMap_cons, gutterLine_eq, List.append_assoc, List.append_assoc, List.singleton_append,
      Text.lines_append_lineFeed (lineFeed_notMem_behindGutter plain here), List.map_cons,
      withoutGutter_behindGutter blank, inductionHypothesis further, List.map_cons, List.cons_append]

/-! ### Comments -/

omit plain in
/-- Without its marks a comment is its lines, below an empty one and above the indentation. -/
theorem strippedChars_commentChars_eq (text : List Char) :
    strippedChars (commentChars text indent) =
      Text.trimLineFeeds (Text.joinLines ((Text.lines
        ('\n' :: ((Text.lines text).flatMap (gutterLine indent) ++ (indent ++ [' '])))).map
          withoutGutter)) := by
  have apart : commentChars text indent = indent ++ ("/**".toList ++
      ('\n' :: ((Text.lines text).flatMap (gutterLine indent) ++ (indent ++ [' '])) ++ "*/".toList)) := by
    simp [commentChars]
  have trimmed (inside : List Char) : Text.trim ("/**".toList ++ (inside ++ "*/".toList)) =
      "/**".toList ++ (inside ++ "*/".toList) := by
    have ends : ("/**".toList ++ (inside ++ "*/".toList)).getLast? = some '/' := by
      rw [← List.append_assoc, List.getLast?_append_of_ne_nil _ (by decide)]
      rfl
    rw [Text.trim_eq_self_iff, ends]
    simp [show Text.isBlank '/' = false by decide]
  rw [strippedChars, apart, Text.trim_append_of_blank blank, trimmed]
  simp only [Text.dropLead?_append, Text.dropTail?_append, Option.getD_some]

/-- What is read from the comment around a text is the text with its lines cut at the end and without the
line feeds around it. -/
theorem strippedChars_commentChars (text : List Char) :
    strippedChars (commentChars text indent) =
      Text.trimLineFeeds (Text.joinLines ((Text.lines text).map Text.trimEnd)) := by
  have own : ∀ line ∈ Text.lines text, '\n' ∉ line := fun _ => Text.newline_notMem_of_mem_lines
  have first (rest : List Char) : Text.lines ('\n' :: rest) = [] :: Text.lines rest :=
    Text.lines_append_lineFeed List.not_mem_nil rest
  have empty : withoutGutter [] = [] := rfl
  rw [strippedChars_commentChars_eq blank, first, List.map_cons, map_withoutGutter_lines blank plain own,
    empty, Text.joinLines_cons_of_ne_nil _ (by simp), List.nil_append, Text.trimLineFeeds_cons_lineFeed]
  by_cases none : (Text.lines text).map Text.trimEnd = []
  · rw [none]
    rfl
  · rw [Text.joinLines_append none (List.cons_ne_nil _ _), Text.joinLines_singleton]
    exact Text.trimLineFeeds_concat_lineFeed _

end

/-- A text is read back from the comment around it exactly if none of its lines ends with a blank and it
neither starts nor ends with a line feed. -/
theorem ofComment_toComment_iff {indent : String}
    (blank : ∀ character ∈ indent.toList, Text.isBlank character = true ∧ character ≠ '\n')
    (text : String) : ofComment (toComment text indent) = text ↔ Text.IsTight text.toList := by
  have plain : '\n' ∉ indent.toList := fun feed => (blank _ feed).2 rfl
  have read : (ofComment (toComment text indent)).toList =
      Text.trimLineFeeds (Text.joinLines ((Text.lines text.toList).map Text.trimEnd)) := by
    rw [ofComment, toComment, String.toList_ofList, String.toList_ofList]
    exact strippedChars_commentChars (fun character member => (blank character member).1) plain _
  constructor
  · intro same
    rw [← same, read]
    exact Text.isTight_trimLineFeeds fun _ => Text.newline_notMem_of_mem_lines
  · intro tight
    rw [← String.toList_inj, read]
    exact tight.trimLineFeeds_lines

/-- A text whose lines start like gutters and marks of comments. -/
def gutteredText : String := "* a\n *\n\n  ** b\n/** c\n */"

theorem ofComment_toComment_iff_gutteredText :
    (∀ character ∈ "\t \r".toList, Text.isBlank character = true ∧ character ≠ '\n') ∧
      ofComment (toComment gutteredText "\t \r") = gutteredText := by
  have blank : ∀ character ∈ "\t \r".toList, Text.isBlank character = true ∧ character ≠ '\n' := by
    simp [Text.isBlank]
  exact ⟨blank, (ofComment_toComment_iff blank gutteredText).mpr (by decide)⟩

/-- A carriage return before a line feed is a blank at the end of a line, and does not come back. -/
example : ofComment (toComment "a\r\nb" "") = "a\nb" := by decide

end ApiSurface.DocBlock
