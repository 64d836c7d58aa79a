/-
This file proves when documentation that was cleaned up reads back as it is. What stands below a header
is indented and what stands above the first one is not, but neither is seen to when a block is written:
an argument may have the name of a section, so may a tag, a long text may leave such a name and a colon on
a line of its own, and blanks behind a backslash stay in front of a summary line. The text reads back
exactly if none of this happens, so exactly if its headers and its summary lines start at the margin.
-/

import ApiSurface.DocBlock.Cleanup
import ApiSurface.Proofs.DocBlock.Stray
import ApiSurface.Proofs.Text.Words

namespace ApiSurface.DocBlock

/-- Whether the headers of a text, and the lines above the first of them, start without a blank. -/
def IsFlush (text : List Char) : Prop :=
  (∀ line ∈ Text.lines text, (Section.ofLine? line).isSome → Text.trimStart line = line) ∧
    ∀ line ∈ (parts (Text.lines text)).1, Text.trimStart line = line

instance (text : List Char) : Decidable (IsFlush text) :=
  inferInstanceAs (Decidable (_ ∧ _))

/-! ### Single spaces -/

/-- A block whose texts have single spaces between their words. -/
def tidied (block : DocBlock) : DocBlock where
  summary := block.summary
  arguments := block.arguments.map fun argument =>
    { argument with description := String.ofList (Text.joinedWords argument.description.toList) }
  returns := String.ofList (Text.joinedWords block.returns.toList)
  failures := block.failures.map fun failure =>
    { failure with description := String.ofList (Text.joinedWords failure.description.toList) }
  tags := block.tags

/-- Wrapping looks at the words of a text only. -/
theorem wrapEntry_joinedWords (head text : List Char) :
    wrapEntry head (Text.joinedWords text) = wrapEntry head text := by
  rw [wrapEntry, Text.joinedWords, ← Text.spaced, Text.words_spaced (Text.areWords_words text),
    wrapEntry]

section

variable {block : DocBlock} (formed : block.IsWellFormed)

include formed

theorem IsWellFormed.isEmpty_returns_tidied :
    block.tidied.returns.isEmpty = block.returns.isEmpty := by
  have trimmed := formed.returnsText.1
  have same : Text.joinedWords block.returns.toList = [] ↔ block.returns.toList = [] := by
    constructor
    · intro none
      have words : Text.words block.returns.toList = [] := by
        by_contra some
        exact Text.spaced_ne_nil (Text.areWords_words _) some none
      rw [← trimmed, (Text.trim_eq_nil_iff _).mpr (Text.words_eq_nil_iff.mp words)]
    · intro none
      rw [none]
      rfl
  rw [Bool.eq_iff_iff, String.isEmpty_iff, String.isEmpty_iff, ← String.toList_eq_nil_iff,
    ← String.toList_eq_nil_iff, tidied, String.toList_ofList, same]

theorem IsWellFormed.linesUnder_tidied (opened : Section) :
    block.tidied.linesUnder opened = block.linesUnder opened := by
  cases opened with
  | arguments =>
    rw [linesUnder, tidied, List.flatMap_map]
    refine List.flatMap_congr fun argument _ => ?_
    rw [String.toList_ofList, wrapEntry_joinedWords]
    rfl
  | returns =>
    rw [linesUnder, formed.isEmpty_returns_tidied, tidied, String.toList_ofList, wrapEntry_joinedWords]
    rfl
  | failures =>
    rw [linesUnder, tidied, List.flatMap_map]
    refine List.flatMap_congr fun failure _ => ?_
    rw [String.toList_ofList, wrapEntry_joinedWords]
    rfl
  | tags => rfl

/-- Single spaces make no difference to what is written. -/
theorem IsWellFormed.render_tidied : block.tidied.render = block.render := by
  have one : block.tidied.sectionOf? = block.sectionOf? := by
    funext opened
    rw [sectionOf?, formed.linesUnder_tidied, sectionOf?]
  rw [render, sectionTexts_eq, writtenSections, one, render, sectionTexts_eq, writtenSections]
  rfl

theorem IsWellFormed.isEmpty_tidied : block.tidied.isEmpty = block.isEmpty := by
  rw [isEmpty, formed.isEmpty_returns_tidied, isEmpty, tidied, List.isEmpty_map, List.isEmpty_map]

end

/-! ### Margins -/

theorem head?_of_mem_wrapEntry {head text line : List Char} (start : head.head? = some ' ')
    (member : line ∈ wrapEntry head text) : line.head? = some ' ' := by
  obtain ⟨taken, groups, -, -, -, wrapped⟩ := exists_layout head text
  rw [wrapped] at member
  rcases List.mem_cons.mp member with rfl | further
  · rw [List.head?_append, start, Option.some_or]
  · obtain ⟨group, -, rfl⟩ := List.mem_map.mp further
    rfl

/-- Every line below a header is indented. -/
theorem head?_of_mem_linesUnder {block : DocBlock} {opened : Section} {line : List Char}
    (member : line ∈ block.linesUnder opened) : line.head? = some ' ' := by
  cases opened with
  | arguments =>
    obtain ⟨argument, -, written⟩ := List.mem_flatMap.mp member
    refine head?_of_mem_wrapEntry ?_ written
    rw [argumentHead_eq]
    rfl
  | returns =>
    rw [linesUnder] at member
    split at member
    · exact absurd member List.not_mem_nil
    · exact head?_of_mem_wrapEntry rfl member
  | failures =>
    obtain ⟨failure, -, written⟩ := List.mem_flatMap.mp member
    exact head?_of_mem_wrapEntry rfl written
  | tags =>
    rw [linesUnder] at member
    split at member
    · exact absurd member List.not_mem_nil
    · rw [List.mem_singleton.mp member]
      rfl

/-- A summary line is written at the margin exactly if it starts there itself. -/
theorem trimStart_escapedLine_iff (line : List Char) :
    Text.trimStart (escapedLine line) = escapedLine line ↔ Text.trimStart line = line := by
  rw [Text.trimStart_eq_self_iff, Text.trimStart_eq_self_iff]
  unfold escapedLine
  split
  · cases line with
    | nil => simp [show Text.isBlank '\\' = false by decide]
    | cons first rest =>
      cases blank : Text.isBlank first with
      | true => simp [blank]
      | false => simp [blank, show Text.isBlank '\\' = false by decide]
  · rfl

section

variable {block : DocBlock} (formed : block.IsWellFormed)

include formed

theorem IsWellFormed.mem_lines_render {opened : Section} {line : List Char}
    (member : line ∈ block.linesUnder opened) : line ∈ Text.lines block.render.toList := by
  have filled : (block.linesUnder opened).isEmpty = false :=
    List.isEmpty_eq_false_iff.mpr (List.ne_nil_of_mem member)
  have written : (opened, block.linesUnder opened) ∈ block.writtenSections := by
    refine List.mem_flatMap.mpr ⟨opened, by cases opened <;> decide, ?_⟩
    rw [sectionOf?, filled]
    exact List.mem_cons_self
  rw [formed.lines_render]
  refine Text.mem_intercalate ?_ (List.mem_cons_of_mem opened.header member)
  exact List.mem_append_right _ (List.mem_map_of_mem written)

/-- A block whose text has its headers and its summary lines at the margin reads back once its texts have
single spaces. -/
theorem IsWellFormed.isReadable_tidied (flush : IsFlush block.render.toList) :
    block.tidied.IsReadable where
  argumentNames := List.forall_mem_map.mpr formed.argumentNames
  argumentsDistinct := by
    rw [tidied, List.map_map]
    exact formed.argumentsDistinct
  hints := List.forall_mem_map.mpr formed.hints
  argumentTexts := List.forall_mem_map.mpr fun argument _ => by
    rw [String.toList_ofList]
    exact Text.isOneLine_joinedWords _
  failureKinds := List.forall_mem_map.mpr formed.failureKinds
  failuresDistinct := by
    rw [tidied, List.map_map]
    exact formed.failuresDistinct
  failureTexts := List.forall_mem_map.mpr fun failure _ => by
    rw [String.toList_ofList]
    exact Text.isOneLine_joinedWords _
  returnsText := by
    rw [tidied, String.toList_ofList]
    exact Text.isOneLine_joinedWords _
  tags := formed.tags
  summary := formed.summary
  summaryLines line member := by
    cases filled : block.summary.isEmpty with
    | true =>
      have none : block.tidied.summary.toList = [] := String.toList_eq_nil_iff.mpr
        (String.isEmpty_iff.mp filled)
      rw [none, List.splitOn_nil, List.mem_singleton] at member
      rw [member]
      rfl
    | false =>
      obtain ⟨gap, -, cut⟩ := formed.exists_parts_render
      have written : escapedLine line ∈ (parts (Text.lines block.render.toList)).1 := by
        rw [cut, formed.summaryLines_eq filled]
        exact List.mem_append_left gap (List.mem_map_of_mem member)
      have start := (trimStart_escapedLine_iff line).mp (flush.2 _ written)
      rw [Text.trim, start, formed.summaryEnds line member]
  noHeader opened line member := by
    rw [formed.linesUnder_tidied] at member
    by_contra header
    have start := flush.1 line (formed.mem_lines_render member) (Option.isSome_iff_ne_none.mpr header)
    have blank := (Text.trimStart_eq_self_iff line).mp start ' ' (head?_of_mem_linesUnder member)
    exact absurd blank (by decide)

theorem IsWellFormed.exists_of_mem_summaryLines {written : List Char}
    (member : written ∈ summaryLines block.summary) :
    ∃ line ∈ block.summary.toList.splitOn '\n', escapedLine line = written := by
  cases filled : block.summary.isEmpty with
  | true =>
    rw [String.isEmpty_iff.mp filled] at member
    exact absurd member List.not_mem_nil
  | false =>
    rw [formed.summaryLines_eq filled] at member
    exact List.mem_map.mp member

/-- The summary of a block that reads back as itself starts each of its lines at the margin. -/
theorem IsWellFormed.trim_of_mem_summary (same : parse block.render = block) :
    ∀ line ∈ block.summary.toList.splitOn '\n', Text.trim line = line := by
  obtain ⟨gap, empty, cut⟩ := formed.exists_parts_render
  have read : block.summary.toList = summaryOf (summaryLines block.summary ++ gap) := by
    conv_lhs => rw [← same, parse_summary, cut]
  have each : ∀ line ∈ block.summary.toList.splitOn '\n', '\n' ∉ line ∧ Text.trim line = line := by
    rw [read]
    refine of_mem_splitOn_summaryOf (fun line given => ?_) (fun line given => ?_)
      ⟨List.not_mem_nil, rfl⟩ (fun line given => given.1) fun written member => ?_
    · rwa [((Text.trim_eq_self_iff_and line).mp given.2).1]
    · rwa [((Text.trim_eq_self_iff_and line).mp given.2).2]
    · rcases List.mem_append.mp member with summary | behind
      · obtain ⟨line, inside, rfl⟩ := formed.exists_of_mem_summaryLines summary
        have ends := formed.summaryEnds line inside
        have trimmed : Text.trimStart line = Text.trim line := (Text.trimEnd_trimStart ends).symm
        rw [unescapedLine_escapedLine ends, trimmed]
        exact ⟨fun feed => Text.newline_notMem_of_mem_splitOn inside (Text.mem_of_mem_trim feed),
          Text.trim_trim line⟩
      · rw [eq_nil_of_mem_gap empty behind]
        exact ⟨List.not_mem_nil, rfl⟩
  exact fun line member => (each line member).2

/-- The text of a block that reads back as itself has its headers and its summary lines at the margin. -/
theorem IsWellFormed.isFlush_render (same : parse block.render = block) :
    IsFlush block.render.toList := by
  have plain : ∀ written ∈ summaryLines block.summary, Text.trimStart written = written := by
    intro written member
    obtain ⟨line, inside, rfl⟩ := formed.exists_of_mem_summaryLines member
    have trimmed := formed.trim_of_mem_summary same line inside
    exact (trimStart_escapedLine_iff line).mpr ((Text.trim_eq_self_iff_and line).mp trimmed).1
  constructor
  · intro line member header
    rw [formed.lines_render] at member
    rcases Text.of_mem_intercalate member with rfl | ⟨group, inside, there⟩
    · rfl
    rcases List.mem_append.mp inside with summary | below
    · split at summary
      · exact absurd summary List.not_mem_nil
      · rw [List.mem_singleton.mp summary] at there
        exact plain line there
    · obtain ⟨written, known, rfl⟩ := List.mem_map.mp below
      rcases List.mem_cons.mp there with rfl | under
      · cases written.1 <;> decide
      · rw [mem_writtenSections known] at under
        rw [noHeader_of_parse_render formed same written.1 line under] at header
        exact absurd header (by decide)
  · intro line member
    obtain ⟨gap, empty, cut⟩ := formed.exists_parts_render
    rw [cut] at member
    rcases List.mem_append.mp member with summary | behind
    · exact plain line summary
    · rw [eq_nil_of_mem_gap empty behind]
      rfl

end

/-! ### Cleaning up -/

theorem exists_of_normalize? {text normal : String} (given : normalize? text = some normal) :
    ∃ block : DocBlock, block.IsWellFormed ∧ block.isEmpty = false ∧ normal = block.render := by
  unfold normalize? at given
  dsimp only at given
  split at given
  · exact absurd given.symm (Option.some_ne_none _)
  · next filled =>
    exact ⟨_, isWellFormed_parse _, Bool.eq_false_iff.mpr filled, (Option.some.inj given).symm⟩

/-- Documentation that was cleaned up reads back, and is written as it is from what is read, exactly if
its headers and its summary lines start at the margin. -/
theorem parse_normalize?_iff {text normal : String} (given : normalize? text = some normal) :
    (parse normal).isEmpty = false ∧ (parse normal).render = normal ↔ IsFlush normal.toList := by
  constructor
  · rintro ⟨-, same⟩
    have formed := isWellFormed_parse normal
    rw [← same]
    exact formed.isFlush_render (congrArg parse same)
  · intro flush
    obtain ⟨block, formed, filled, rfl⟩ := exists_of_normalize? given
    have readable := formed.isReadable_tidied flush
    have read : parse block.tidied.render = block.tidied :=
      readable.parse_eq readable.parts_render.1 readable.parts_render.2
    rw [formed.render_tidied] at read
    rw [read, formed.isEmpty_tidied, formed.render_tidied]
    exact ⟨filled, rfl⟩

/-- Documentation in a fence, with a summary line that looks like a header and a text on two lines. -/
def fencedText : String :=
  "```\nLists pets.\n\\Args:\nArgs:\n  limit (int): How many,\n      at most\nTags:\n  a b, c\n```"

/-- The same documentation, cleaned up. -/
def cleanText : String :=
  "Lists pets.\n\\Args:\n\nArgs:\n    limit (int): How many, at most\n\nTags:\n    a b, c"

theorem parse_normalize?_iff_fencedText :
    normalize? fencedText = some cleanText ∧
      (parse cleanText).isEmpty = false ∧ (parse cleanText).render = cleanText := by
  have given : normalize? fencedText = some cleanText := by
    rw [normalize?, parse, String.toList_ofList]
    decide +kernel
  exact ⟨given, (parse_normalize?_iff given).mpr (by decide +kernel)⟩

/-- An argument that is named like a section and has no text is written as a header, so nothing reads back
but the empty block; and the blanks behind the backslash of a summary line do not read back either. -/
theorem normalize?_not_stable :
    (normalize? "Args:\n    tags ():" = some "Args:\n    tags:" ∧ parse "Args:\n    tags:" = empty) ∧
    (normalize? "Lists pets.\n\\  Args:" = some "Lists pets.\n  \\Args:" ∧
      (parse "Lists pets.\n  \\Args:").render = "Lists pets.\n\\Args:") := by
  decide +kernel

end ApiSurface.DocBlock
