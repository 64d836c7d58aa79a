/-
This file says which lines a written block consists of: the lines of the summary and, below each
header, those of its section, with an empty line between each two groups. Every line but the empty
ones ends with something else than a blank and none holds a line feed, so the text is taken apart
into the very lines that it was put together from.
-/

import ApiSurface.Proofs.DocBlock.Entry
import ApiSurface.Proofs.DocBlock.Tag
import ApiSurface.Proofs.Text.Line

namespace ApiSurface.DocBlock

/-! ### Sections -/

/-- The lines that a block writes below the header of a section. -/
def linesUnder (block : DocBlock) : Section → List (List Char)
  | .arguments => block.arguments.flatMap fun argument =>
      wrapEntry (argumentHead argument) argument.description.toList
  | .returns => if block.returns.isEmpty then [] else wrapEntry entryIndent block.returns.toList
  | .failures => block.failures.flatMap fun failure =>
      wrapEntry (failureHead failure) failure.description.toList
  | .tags => if block.tags.isEmpty then [] else [entryIndent ++ tagList block.tags]

/-- A section with its lines, if it has any. -/
def sectionOf? (block : DocBlock) (opened : Section) : List (Section × List (List Char)) :=
  if (block.linesUnder opened).isEmpty then [] else [(opened, block.linesUnder opened)]

/-- The sections that a block writes, with their lines. -/
def writtenSections (block : DocBlock) : List (Section × List (List Char)) :=
  [Section.arguments, .returns, .failures, .tags].flatMap block.sectionOf?

theorem wrapEntry_ne_nil (head text : List Char) : wrapEntry head text ≠ [] := by
  obtain ⟨taken, groups, -, -, -, wrapped⟩ := exists_layout head text
  rw [wrapped]
  exact List.cons_ne_nil _ _

theorem isEmpty_flatMap_wrapEntry {Item : Type} (items : List Item) (head text : Item → List Char) :
    (items.flatMap fun item => wrapEntry (head item) (text item)).isEmpty = items.isEmpty := by
  cases items with
  | nil => rfl
  | cons first rest =>
    rw [List.isEmpty_cons, List.isEmpty_eq_false_iff, List.flatMap_cons]
    exact List.append_ne_nil_of_left_ne_nil (wrapEntry_ne_nil _ _) _

theorem isEmpty_linesUnder_returns (block : DocBlock) :
    (block.linesUnder .returns).isEmpty = block.returns.isEmpty := by
  unfold linesUnder
  cases block.returns.isEmpty with
  | true => rfl
  | false => exact List.isEmpty_eq_false_iff.mpr (wrapEntry_ne_nil _ _)

theorem isEmpty_linesUnder_tags (block : DocBlock) :
    (block.linesUnder .tags).isEmpty = block.tags.isEmpty := by
  unfold linesUnder
  cases block.tags.isEmpty <;> rfl

/-- The texts of the sections are their headers and lines. -/
theorem sectionTexts_eq (block : DocBlock) :
    block.sectionTexts =
      (if block.summary.isEmpty then [] else [summaryText block.summary]) ++
        block.writtenSections.map fun written =>
          Text.joinLines (written.1.header :: written.2) := by
  have one (opened : Section) (empty : Bool) (same : (block.linesUnder opened).isEmpty = empty) :
      (block.sectionOf? opened).map (fun written =>
          Text.joinLines (written.1.header :: written.2)) =
        if empty then [] else [Text.joinLines (opened.header :: block.linesUnder opened)] := by
    rw [sectionOf?, same]
    cases empty <;> rfl
  rw [writtenSections]
  simp only [List.flatMap_cons, List.flatMap_nil, List.map_append, List.append_nil]
  rw [one .arguments _ (isEmpty_flatMap_wrapEntry _ _ _),
    one .returns _ block.isEmpty_linesUnder_returns,
    one .failures _ (isEmpty_flatMap_wrapEntry _ _ _), one .tags _ block.isEmpty_linesUnder_tags]
  unfold sectionTexts linesUnder
  cases returns : block.returns.isEmpty <;> cases tags : block.tags.isEmpty <;>
    simp only [List.append_assoc] <;> rfl

/-- Of the sections that are written, those of one kind. -/
theorem filter_writtenSections (block : DocBlock) (wanted : Section) :
    block.writtenSections.filter (fun written => written.1 == wanted) = block.sectionOf? wanted := by
  have one (opened : Section) :
      (block.sectionOf? opened).filter (fun written => written.1 == wanted) =
        if opened = wanted then block.sectionOf? opened else [] := by
    unfold sectionOf?
    split
    · exact (ite_self _).symm
    · by_cases same : opened = wanted <;> simp [same]
  rw [writtenSections, List.filter_flatMap]
  simp only [one]
  cases wanted <;> simp

/-! ### Well-formed blocks -/

/-- A text on one line, without blanks at its ends. -/
def IsTrimmedLine (text : List Char) : Prop :=
  Text.trim text = text ∧ '\n' ∉ text

/-- What every block that can be read from a text has in common. Names and kinds are those that the head
of an entry admits, each of them once; what stands in parentheses ends with the first closing one; texts
are on one line; and no line of the summary ends with a blank. Such a block is written on lines that can
be taken apart again, whatever is read from them. -/
structure IsWellFormed (block : DocBlock) : Prop where
  argumentNames : ∀ argument ∈ block.arguments, IsName Text.continuesName argument.name.toList
  argumentsDistinct : (block.arguments.map Argument.name).Nodup
  hints : ∀ argument ∈ block.arguments, ∀ hint ∈ argument.typeHint,
    hint.toList ≠ [] ∧ Text.trim hint.toList = hint.toList ∧ ')' ∉ hint.toList ∧ '\n' ∉ hint.toList
  argumentTexts : ∀ argument ∈ block.arguments, IsTrimmedLine argument.description.toList
  failureKinds : ∀ failure ∈ block.failures, IsName continuesKind failure.kind.toList
  failuresDistinct : (block.failures.map Failure.kind).Nodup
  failureTexts : ∀ failure ∈ block.failures, IsTrimmedLine failure.description.toList
  returnsText : IsTrimmedLine block.returns.toList
  tags : ∀ tag ∈ block.tags,
    tag.toList ≠ [] ∧ Text.trim tag.toList = tag.toList ∧ '\n' ∉ tag.toList
  summary : Text.trim block.summary.toList = block.summary.toList
  summaryEnds : ∀ line ∈ block.summary.toList.splitOn '\n', Text.trimEnd line = line

/-! ### Blocks that can be read -/

/-- What reading asks of a block so that nothing of it is lost. Names and kinds are those that the
head of an entry admits, each of them once; texts on one line have single spaces between their words;
and no line of a section looks like a header. The summary may hold any lines, also ones that look like
headers or start with backslashes: lines are what line feeds keep apart, and none may start or end
with a blank. -/
structure IsReadable (block : DocBlock) : Prop where
  argumentNames : ∀ argument ∈ block.arguments, IsName Text.continuesName argument.name.toList
  argumentsDistinct : (block.arguments.map Argument.name).Nodup
  hints : ∀ argument ∈ block.arguments, ∀ hint ∈ argument.typeHint,
    hint.toList ≠ [] ∧ Text.trim hint.toList = hint.toList ∧ ')' ∉ hint.toList ∧ '\n' ∉ hint.toList
  argumentTexts : ∀ argument ∈ block.arguments,
    Text.joinedWords argument.description.toList = argument.description.toList
  failureKinds : ∀ failure ∈ block.failures, IsName continuesKind failure.kind.toList
  failuresDistinct : (block.failures.map Failure.kind).Nodup
  failureTexts : ∀ failure ∈ block.failures,
    Text.joinedWords failure.description.toList = failure.description.toList
  returnsText : Text.joinedWords block.returns.toList = block.returns.toList
  tags : ∀ tag ∈ block.tags,
    tag.toList ≠ [] ∧ Text.trim tag.toList = tag.toList ∧ '\n' ∉ tag.toList
  summary : Text.trim block.summary.toList = block.summary.toList
  summaryLines : ∀ line ∈ block.summary.toList.splitOn '\n', Text.trim line = line
  noHeader : ∀ opened, ∀ line ∈ block.linesUnder opened, Section.ofLine? line = none

theorem isTrimmedLine_of_joinedWords {text : List Char} (single : Text.joinedWords text = text) :
    IsTrimmedLine text := by
  have plain := Text.areWords_words text
  have trimmed : Text.trim (Text.joinedWords text) = Text.joinedWords text := Text.trim_spaced plain
  have noFeed : '\n' ∉ Text.joinedWords text :=
    Text.not_mem_spaced plain (by decide) (by decide)
  rw [single] at trimmed noFeed
  exact ⟨trimmed, noFeed⟩

theorem IsReadable.isWellFormed {block : DocBlock} (readable : block.IsReadable) :
    block.IsWellFormed where
  argumentNames := readable.argumentNames
  argumentsDistinct := readable.argumentsDistinct
  hints := readable.hints
  argumentTexts argument member := isTrimmedLine_of_joinedWords (readable.argumentTexts argument member)
  failureKinds := readable.failureKinds
  failuresDistinct := readable.failuresDistinct
  failureTexts failure member := isTrimmedLine_of_joinedWords (readable.failureTexts failure member)
  returnsText := isTrimmedLine_of_joinedWords readable.returnsText
  tags := readable.tags
  summary := readable.summary
  summaryEnds line member :=
    ((Text.trim_eq_self_iff_and line).mp (readable.summaryLines line member)).2

/-! ### Lines -/

theorem newline_not_mem_of_isName {continues : Char → Bool} (feed : continues '\n' = false)
    {name : List Char} (named : IsName continues name) : '\n' ∉ name := by
  obtain ⟨first, rest, rfl, starts, continued⟩ := named
  rw [List.mem_cons, not_or]
  refine ⟨?_, fun member => ?_⟩
  · rintro rfl
    exact absurd starts (by decide)
  · exact absurd (continued _ member) (by rw [feed]; exact Bool.false_ne_true)

theorem isSolid_argumentHead {argument : Argument}
    (named : IsName Text.continuesName argument.name.toList)
    (hinted : ∀ hint ∈ argument.typeHint, '\n' ∉ hint.toList) :
    IsSolid (argumentHead argument) := by
  rw [argumentHead_eq]
  refine isSolid_append (by decide) (isSolid_append ?_ ⟨by decide, ':', rfl, by decide⟩)
  rw [List.mem_append, not_or]
  refine ⟨newline_not_mem_of_isName (by decide) named, ?_⟩
  cases given : argument.typeHint with
  | none => exact List.not_mem_nil
  | some hint =>
    have inside := hinted hint given
    simp only [hintText, List.cons_append, List.mem_cons, List.mem_append, List.not_mem_nil, or_false,
      not_or]
    exact ⟨by decide, by decide, inside, by decide⟩

theorem isSolid_failureHead {failure : Failure} (named : IsName continuesKind failure.kind.toList) :
    IsSolid (failureHead failure) := by
  rw [failureHead, List.append_assoc]
  exact isSolid_append (by decide) (isSolid_append (newline_not_mem_of_isName (by decide) named)
    ⟨by decide, ':', rfl, by decide⟩)

/-- The lines of the sections of a well-formed block are solid. -/
theorem IsWellFormed.isSolid {block : DocBlock} (formed : block.IsWellFormed) (opened : Section) :
    ∀ line ∈ block.linesUnder opened, IsSolid line := by
  intro line member
  cases opened with
  | arguments =>
    obtain ⟨argument, inside, written⟩ := List.mem_flatMap.mp member
    have head := isSolid_argumentHead (formed.argumentNames argument inside)
      fun hint given => (formed.hints argument inside hint given).2.2.2
    exact isSolid_of_mem_wrapEntry head.1 (fun _ => head) written
  | returns =>
    rw [linesUnder] at member
    split at member
    · exact absurd member List.not_mem_nil
    · next filled =>
      refine isSolid_of_mem_wrapEntry (by decide) (fun none => ?_) member
      have empty : block.returns.toList = [] := by
        rw [← formed.returnsText.1, (Text.trim_eq_nil_iff _).mpr (Text.words_eq_nil_iff.mp none)]
      exact absurd (String.isEmpty_iff.mpr (String.toList_eq_nil_iff.mp empty)) filled
  | failures =>
    obtain ⟨failure, inside, written⟩ := List.mem_flatMap.mp member
    have head := isSolid_failureHead (formed.failureKinds failure inside)
    exact isSolid_of_mem_wrapEntry head.1 (fun _ => head) written
  | tags =>
    rw [linesUnder] at member
    split at member
    · exact absurd member List.not_mem_nil
    · next filled =>
      rw [List.mem_singleton.mp member]
      exact isSolid_append (by decide)
        (tagList_ends (fun none => filled (List.isEmpty_iff.mpr none)) formed.tags).2

theorem isSolid_header (opened : Section) : IsSolid opened.header := by
  cases opened <;> exact ⟨by decide, ':', by decide, by decide⟩

theorem mem_writtenSections {block : DocBlock} {written : Section × List (List Char)}
    (member : written ∈ block.writtenSections) : written.2 = block.linesUnder written.1 := by
  obtain ⟨opened, -, inside⟩ := List.mem_flatMap.mp member
  unfold sectionOf? at inside
  split at inside
  · exact absurd inside List.not_mem_nil
  · rw [List.mem_singleton.mp inside]

end ApiSurface.DocBlock
