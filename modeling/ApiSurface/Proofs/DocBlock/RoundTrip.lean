/-
This file proves that a block reads back as it was written. The text is taken apart into the lines
that it was put together from, the headers cut those lines into the sections that were written, and
each section is read by itself: entries by their indentation, the result by folding its lines, tags by
the cut at the commas, and the summary line by line without the backslashes. What `IsReadable` asks
for is used once each, by the section that it speaks about.
-/

import ApiSurface.Proofs.DocBlock.Layout
import ApiSurface.Proofs.Keyed

namespace ApiSurface.DocBlock

open Text (AreWords spaced)

/-! ### The lines of a summary -/

/-- A trimmed text does not end with a line feed, so the last of its pieces is not empty. -/
theorem getLast?_splitOn_of_trimmed {text : List Char} (trimmed : Text.trim text = text)
    (nonempty : text ≠ []) : (text.splitOn '\n').getLast? ≠ some [] := by
  have joined : Text.joinLines (text.splitOn '\n') = text := List.intercalate_splitOn '\n'
  intro empty
  obtain ⟨before, whole⟩ := List.getLast?_eq_some_iff.mp empty
  by_cases none : before = []
  · rw [whole, none] at joined
    exact nonempty joined.symm
  · rw [whole, Text.joinLines_append none (List.cons_ne_nil _ _), Text.joinLines_singleton] at joined
    have last : '\n' ∈ text.getLast? := by
      rw [← joined, List.getLast?_concat]
      rfl
    exact absurd (((Text.trim_eq_self_iff text).mp trimmed).2 '\n' last) (by decide)

theorem getLast?_ne_return {line : List Char} (ended : Text.trimEnd line = line) :
    line.getLast? ≠ some '\r' := fun last =>
  absurd ((Text.trimEnd_eq_self_iff line).mp ended '\r' last) (by decide)

/-- A trimmed text whose pieces between line feeds end without blanks has these pieces as its lines. -/
theorem lines_of_trimmed {text : List Char} (trimmed : Text.trim text = text)
    (nonempty : text ≠ []) (each : ∀ line ∈ text.splitOn '\n', Text.trimEnd line = line) :
    Text.lines text = text.splitOn '\n' := by
  rw [Text.lines, ← List.splitOn_eq_splitOnP]
  exact Text.linesOfPieces_eq_self (fun line member => getLast?_ne_return (each line member))
    (getLast?_splitOn_of_trimmed trimmed nonempty)

/-- The lines that a block writes for its summary. -/
def summaryLines (summary : String) : List (List Char) :=
  (Text.lines summary.toList).map escapedLine

section

variable {block : DocBlock}

theorem toList_ne_nil {text : String} (filled : text.isEmpty = false) : text.toList ≠ [] :=
  fun empty => Bool.noConfusion
    (filled.symm.trans (String.isEmpty_iff.mpr (String.toList_eq_nil_iff.mp empty)))

theorem IsWellFormed.summaryLines_eq (formed : block.IsWellFormed)
    (filled : block.summary.isEmpty = false) :
    DocBlock.summaryLines block.summary = (block.summary.toList.splitOn '\n').map escapedLine := by
  rw [DocBlock.summaryLines,
    lines_of_trimmed formed.summary (toList_ne_nil filled) formed.summaryEnds]

/-- The lines that are written for a summary are the lines of what they are joined to. -/
theorem IsWellFormed.areLines_summaryLines (formed : block.IsWellFormed)
    (filled : block.summary.isEmpty = false) :
    DocBlock.summaryLines block.summary ≠ [] ∧
      Text.AreLines (DocBlock.summaryLines block.summary) := by
  rw [formed.summaryLines_eq filled]
  refine ⟨fun none => List.splitOn_ne_nil '\n' _ (List.map_eq_nil_iff.mp none), ?_, ?_⟩
  · intro written member
    obtain ⟨line, inside, rfl⟩ := List.mem_map.mp member
    refine ⟨fun feed => ?_,
      getLast?_ne_return (trimEnd_escapedLine (formed.summaryEnds line inside))⟩
    rcases mem_of_mem_escapedLine feed with backslash | there
    · exact absurd backslash (by decide)
    · exact Text.newline_notMem_of_mem_splitOn inside there
  · rw [List.getLast?_map]
    intro empty
    obtain ⟨line, last, written⟩ := Option.map_eq_some_iff.mp empty
    rw [eq_nil_of_escapedLine_eq_nil written] at last
    exact getLast?_splitOn_of_trimmed formed.summary (toList_ne_nil filled) last

/-! ### The lines of a block -/

/-- The lines of a block, in groups that stand an empty line apart. -/
def lineGroups (block : DocBlock) : List (List (List Char)) :=
  (if block.summary.isEmpty then [] else [DocBlock.summaryLines block.summary]) ++
    block.writtenSections.map fun written => written.1.header :: written.2

theorem sectionTexts_eq_map (block : DocBlock) :
    block.sectionTexts = block.lineGroups.map Text.joinLines := by
  rw [sectionTexts_eq, lineGroups, List.map_append, List.map_map]
  refine congrArg (· ++ _) ?_
  cases block.summary.isEmpty <;> rfl

theorem IsWellFormed.areLines_lineGroups (formed : block.IsWellFormed) :
    ∀ group ∈ block.lineGroups, group ≠ [] ∧ Text.AreLines group := by
  intro group member
  rcases List.mem_append.mp member with summary | below
  · cases filled : block.summary.isEmpty with
    | true =>
      rw [filled] at summary
      exact absurd summary List.not_mem_nil
    | false =>
      rw [filled] at summary
      rw [List.mem_singleton.mp summary]
      exact formed.areLines_summaryLines filled
  · obtain ⟨written, inside, rfl⟩ := List.mem_map.mp below
    have solid : ∀ line ∈ written.1.header :: written.2, IsSolid line := by
      intro line member
      rcases List.mem_cons.mp member with rfl | under
      · exact isSolid_header written.1
      · rw [mem_writtenSections inside] at under
        exact formed.isSolid written.1 line under
    exact ⟨List.cons_ne_nil _ _, areLines_of_isSolid solid⟩

/-- The lines of a well-formed block are those that it writes. -/
theorem IsWellFormed.lines_render (formed : block.IsWellFormed) :
    Text.lines block.render.toList = [[]].intercalate block.lineGroups := by
  have groups := formed.areLines_lineGroups
  rw [render, String.toList_ofList, sectionTexts_eq_map,
    Text.intercalate_joinLines fun group member => (groups group member).1,
    Text.lines_joinLines (Text.areLines_intercalate groups)]

/-! ### The parts of a block -/

/-- The headers cut the lines of a block below its summary, perhaps with an empty line behind it. -/
theorem IsWellFormed.exists_parts_render (formed : block.IsWellFormed) :
    ∃ gap, (gap = [] ∨ gap = [[]]) ∧ parts (Text.lines block.render.toList) =
      (DocBlock.summaryLines block.summary ++ gap, (parts (sectionLines block.writtenSections)).2) := by
  have lead := lead_sectionLines block.writtenSections
  rw [formed.lines_render, lineGroups]
  cases summary : block.summary.isEmpty with
  | true =>
    rw [if_pos rfl, List.nil_append, ← sectionLines, String.isEmpty_iff.mp summary]
    exact ⟨[], .inl rfl, Prod.ext lead rfl⟩
  | false =>
    have noHeader : ∀ line ∈ DocBlock.summaryLines block.summary, Section.ofLine? line = none := by
      intro written member
      obtain ⟨line, -, rfl⟩ := List.mem_map.mp member
      exact ofLine?_escapedLine line
    rw [if_neg Bool.false_ne_true, List.singleton_append]
    cases sections : block.writtenSections with
    | nil =>
      have alone : [[]].intercalate [DocBlock.summaryLines block.summary] =
          DocBlock.summaryLines block.summary ++ [] := by
        rw [List.append_nil, List.intercalate_singleton]
      refine ⟨[], .inl rfl, ?_⟩
      rw [List.map_nil, alone, parts_append noHeader]
      rfl
    | cons written others =>
      rw [sections] at lead
      have below : [[]].intercalate (DocBlock.summaryLines block.summary ::
          (written :: others).map fun written => written.1.header :: written.2) =
          DocBlock.summaryLines block.summary ++ [] :: sectionLines (written :: others) := by
        rw [List.map_cons, List.intercalate_cons_cons, List.append_assoc]
        rfl
      refine ⟨[[]], .inr rfl, ?_⟩
      rw [below, parts_append noHeader, parts_cons rfl, lead]

/-- The lines of a summary, and an empty one that may follow them, stand for the summary. -/
theorem IsReadable.summaryOf_eq (readable : block.IsReadable) {gap : List (List Char)}
    (none : gap = [] ∨ gap = [[]]) :
    summaryOf (DocBlock.summaryLines block.summary ++ gap) = block.summary.toList := by
  cases filled : block.summary.isEmpty with
  | true =>
    rw [String.isEmpty_iff.mp filled]
    rcases none with rfl | rfl <;> rfl
  | false =>
    have read : (DocBlock.summaryLines block.summary).map (fun line =>
        unescapedLine (Text.trim line)) = block.summary.toList.splitOn '\n' := by
      rw [readable.isWellFormed.summaryLines_eq filled, List.map_map]
      refine (List.map_congr_left fun line inside => ?_).trans (List.map_id _)
      rw [Function.comp_apply,
        unescapedLine_escapedLine (readable.isWellFormed.summaryEnds line inside),
        ((Text.trim_eq_self_iff_and line).mp (readable.summaryLines line inside)).1, id]
    have joined : Text.joinLines (block.summary.toList.splitOn '\n') = block.summary.toList :=
      List.intercalate_splitOn '\n'
    rw [summaryOf, List.map_append, read]
    rcases none with rfl | rfl
    · rw [List.map_nil, List.append_nil, joined, readable.summary]
    · have last : ([[]] : List (List Char)).map (fun line => unescapedLine (Text.trim line)) = [[]] :=
        rfl
      rw [last, Text.joinLines_append (List.splitOn_ne_nil '\n' _) (List.cons_ne_nil _ _), joined,
        Text.joinLines_singleton, Text.trim_concat_of_blank (by decide), readable.summary]

/-- The headers cut the lines of a block into its summary and the sections that it writes. -/
theorem IsReadable.parts_render (readable : block.IsReadable) :
    summaryOf (parts (Text.lines block.render.toList)).1 = block.summary.toList ∧
      filledParts (parts (Text.lines block.render.toList)).2 = block.writtenSections := by
  obtain ⟨gap, empty, cut⟩ := readable.isWellFormed.exists_parts_render
  rw [cut]
  refine ⟨readable.summaryOf_eq empty, filledParts_sectionLines ?_ ?_⟩
  · intro written member line under
    rw [mem_writtenSections member] at under
    exact readable.noHeader written.1 line under
  · intro written member line under
    rw [mem_writtenSections member] at under
    exact isFilled_of_isSolid (readable.isWellFormed.isSolid written.1 line under)

theorem flatMap_sectionOf? (block : DocBlock) (wanted : Section) {Item : Type}
    {read : List (List Char) → List Item} (nothing : read [] = []) :
    ((block.sectionOf? wanted).map Prod.snd).flatMap read = read (block.linesUnder wanted) := by
  unfold sectionOf?
  split
  · next empty =>
    rw [List.isEmpty_iff.mp empty, nothing]
    rfl
  · rw [List.map_singleton, List.flatMap_singleton]

theorem flatten_sectionOf? (block : DocBlock) (wanted : Section) :
    ((block.sectionOf? wanted).map Prod.snd).flatten = block.linesUnder wanted := by
  rw [← List.flatMap_id, flatMap_sectionOf? block wanted rfl, id]

/-! ### Sections -/

theorem typeHint_hintOf {argument : Argument}
    (filled : ∀ hint ∈ argument.typeHint, hint.toList ≠ []) :
    (if (hintOf argument).isEmpty then none else some (String.ofList (hintOf argument))) =
      argument.typeHint := by
  unfold hintOf
  cases given : argument.typeHint with
  | none => rfl
  | some hint =>
    show (if hint.toList.isEmpty then none else some (String.ofList hint.toList)) = some hint
    rw [List.isEmpty_eq_false_iff.mpr (filled hint given), String.ofList_toList]
    rfl

/-- The entries that are read are the arguments that were written. -/
theorem IsReadable.read_arguments (readable : block.IsReadable) :
    (entries argumentHead? (block.linesUnder .arguments)).map argumentOf = block.arguments := by
  have each : ∀ argument ∈ block.arguments, IsEntry argumentHead? 4
      (wrapEntry (argumentHead argument) argument.description.toList)
      (argument.name.toList, hintOf argument) (Text.joinedWords argument.description.toList) := by
    intro argument member
    refine isEntry_argument (readable.argumentNames argument member) (fun hint given => ?_) _
    obtain ⟨-, trimmed, inside, -⟩ := readable.hints argument member hint given
    exact ⟨inside, trimmed⟩
  rw [linesUnder, entries_flatMap each, List.map_map]
  refine (List.map_congr_left fun argument member => ?_).trans (List.map_id _)
  have hint := typeHint_hintOf fun hint given => (readable.hints argument member hint given).1
  rw [Function.comp_apply, argumentOf, readable.argumentTexts argument member, hint,
    String.ofList_toList, String.ofList_toList, id]

theorem IsReadable.read_failures (readable : block.IsReadable) :
    (entries failureHead? (block.linesUnder .failures)).map failureOf = block.failures := by
  have each : ∀ failure ∈ block.failures, IsEntry failureHead? 4
      (wrapEntry (failureHead failure) failure.description.toList)
      failure.kind.toList (Text.joinedWords failure.description.toList) :=
    fun failure member => isEntry_failure (readable.failureKinds failure member) _
  rw [linesUnder, entries_flatMap each, List.map_map]
  refine (List.map_congr_left fun failure member => ?_).trans (List.map_id _)
  rw [Function.comp_apply, failureOf, readable.failureTexts failure member, String.ofList_toList,
    String.ofList_toList, id]

theorem separator_entryIndent : separator entryIndent = [] := by
  decide

/-- The lines of a result fold back to its words. -/
theorem folded_wrapEntry_entryIndent (text : List Char) :
    folded (wrapEntry entryIndent text) = Text.joinedWords text := by
  obtain ⟨taken, groups, dealt, nonempty, -, wrapped⟩ := exists_layout entryIndent text
  have plain : AreWords (taken ++ groups.flatten) := dealt ▸ Text.areWords_words text
  have behind : behindHead entryIndent taken = spaced taken := by
    unfold behindHead
    split
    · next none =>
      rw [List.isEmpty_iff.mp none]
      rfl
    · rw [separator_entryIndent, List.nil_append]
  have first : Text.trim (entryIndent ++ behindHead entryIndent taken) = spaced taken := by
    rw [behind, Text.trim_append_of_blank isBlank_of_mem_entryIndent,
      Text.trim_spaced plain.of_append_left]
  rw [wrapped, folded_layout plain nonempty first, ← dealt]
  rfl

theorem IsReadable.read_returns (readable : block.IsReadable) :
    folded (block.linesUnder .returns) = block.returns.toList := by
  rw [linesUnder]
  cases returns : block.returns.isEmpty with
  | true =>
    rw [String.isEmpty_iff.mp returns]
    rfl
  | false => rw [if_neg Bool.false_ne_true, folded_wrapEntry_entryIndent, readable.returnsText]

theorem folded_singleton (line : List Char) : folded [line] = Text.trim line := by
  rw [folded, List.map_singleton, List.filter_singleton]
  cases Text.trim line with
  | nil => rfl
  | cons first rest => exact List.intercalate_singleton

theorem IsReadable.read_tags (readable : block.IsReadable) :
    (tagsOf (folded (block.linesUnder .tags))).map String.ofList = block.tags := by
  have written : folded (block.linesUnder .tags) = tagList block.tags := by
    rw [linesUnder]
    cases tags : block.tags.isEmpty with
    | true =>
      rw [List.isEmpty_iff.mp tags]
      rfl
    | false =>
      obtain ⟨start, -, last, found, solid⟩ :=
        tagList_ends (List.isEmpty_eq_false_iff.mp tags) readable.tags
      rw [if_neg Bool.false_ne_true, folded_singleton,
        Text.trim_append_of_blank isBlank_of_mem_entryIndent]
      refine (Text.trim_eq_self_iff _).mpr ⟨start, fun character member => ?_⟩
      obtain rfl := Option.some.inj (found.symm.trans member)
      exact solid
  rw [written, tagsOf_tagList fun tag member =>
    ⟨(readable.tags tag member).1, (readable.tags tag member).2.1⟩, List.map_map]
  exact (List.map_congr_left fun tag _ => String.ofList_toList).trans (List.map_id _)

/-! ### Blocks -/

/-- A text that the headers cut into the summary and the sections of a readable block is read as that
block. -/
theorem IsReadable.parse_eq (readable : block.IsReadable) {text : String}
    (summary : summaryOf (parts (Text.lines text.toList)).1 = block.summary.toList)
    (sections : filledParts (parts (Text.lines text.toList)).2 = block.writtenSections) :
    parse text = block := by
  have found (wanted : Section) : partsOf wanted (parts (Text.lines text.toList)).2 =
      (block.sectionOf? wanted).map Prod.snd := by
    rw [partsOf_eq, sections, filter_writtenSections]
  have arguments : ((block.sectionOf? .arguments).map Prod.snd).flatMap (entries argumentHead?) =
      entries argumentHead? (block.linesUnder .arguments) := flatMap_sectionOf? block .arguments rfl
  have failures : ((block.sectionOf? .failures).map Prod.snd).flatMap (entries failureHead?) =
      entries failureHead? (block.linesUnder .failures) := flatMap_sectionOf? block .failures rfl
  unfold parse
  simp only [found, arguments, failures, flatten_sectionOf?, summary, readable.read_arguments,
    readable.read_failures, readable.read_returns, readable.read_tags, String.ofList_toList]
  rw [Keyed.putAll_of_nodup (by rw [List.nil_append]; exact readable.argumentsDistinct),
    Keyed.putAll_of_nodup (by rw [List.nil_append]; exact readable.failuresDistinct)]
  rfl

/-- A readable block reads back as it was written. -/
theorem parse_render (readable : block.IsReadable) : parse block.render = block :=
  readable.parse_eq readable.parts_render.1 readable.parts_render.2

end

/-- A block whose parts look like something else: summary lines like headers, a result like an entry,
tags that hold commas and marks, and a text that takes two lines. -/
def deceptiveBlock : DocBlock where
  summary := "Args:\n\\ returns:\n\nTail"
  arguments := [
    ⟨"x", "a0 b1 c2 d3 e4 f5 g6 h7 i8 j9 a0 b1 c2 d3 e4 f5 g6 h7 i8 j9 a0 Tags: a", some "a: (b"⟩,
    ⟨"_y", "", none⟩]
  returns := "x (int): y"
  failures := [⟨"E.x", "y: z"⟩]
  tags := ["a,\\b", "\"", "c\\"]

theorem parse_render_deceptiveBlock :
    deceptiveBlock.IsReadable ∧ parse deceptiveBlock.render = deceptiveBlock := by
  have readable : deceptiveBlock.IsReadable := {
    argumentNames := by decide
    argumentsDistinct := by decide
    hints := by decide
    argumentTexts := by decide
    failureKinds := by decide
    failuresDistinct := by decide
    failureTexts := by decide
    returnsText := by decide
    tags := by decide
    summary := by decide
    summaryLines := by decide
    noHeader := fun opened => by cases opened <;> decide +kernel }
  exact ⟨readable, parse_render readable⟩

end ApiSurface.DocBlock
