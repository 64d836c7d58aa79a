/-
This file proves which blocks a text can be read as. What is read is well formed, and the reverse nearly
holds, whatever the block says. Only a line that reads as a header cannot be had, because it is one wherever
it stands: a failure without a description cannot be of a kind that is a keyword, and a result that reads as
a header must have been on two lines. In a summary the blanks in front of a line are lost, unless a backslash
stands between them and the margin, and that is taken away only in front of a header. For every other block
there is a text that is read as it: all sections have a header and each entry is one line. Parentheses stand
behind each name and a comma in front of the tags, so that these lines are no headers.
-/

import ApiSurface.Proofs.DocBlock.Reading
import ApiSurface.Proofs.DocBlock.RoundTrip
import Mathlib.Data.Set.Operations

namespace ApiSurface.DocBlock

/-- What a well-formed block must keep to if a text is to be read as it. A failure without a description has
its kind and a colon for a line, so the kind is no keyword; a result that reads as a header was on two lines,
of which the second is the colon; and a line of the summary that starts with a blank needs an escape. -/
structure IsExpressible (block : DocBlock) : Prop extends IsWellFormed block where
  silentKinds : ∀ failure ∈ block.failures, failure.description = "" →
    Section.ofLine? (failure.kind.toList ++ [':']) = none
  returnsLines : Section.ofLine? block.returns.toList = none ∨
    ∃ keyword, block.returns.toList = keyword ++ [' ', ':'] ∧ Text.trimEnd keyword = keyword
  summaryStarts : ∀ line ∈ block.summary.toList.splitOn '\n',
    Text.trim line = line ∨ needsEscape line = true

/-! ### A text for a block -/

/-- A text behind a colon. -/
def behindColon (text : List Char) : List Char :=
  if text.isEmpty then [] else ' ' :: text

/-- An argument on one line, with parentheses even if it has no type. -/
def argumentLine (argument : Argument) : List Char :=
  argument.name.toList ++ (' ' :: '(' :: hintOf argument ++ [')']) ++
    ':' :: behindColon argument.description.toList

/-- A failure on one line. -/
def failureLine (failure : Failure) : List Char :=
  failure.kind.toList ++ ':' :: behindColon failure.description.toList

/-- A result on one line, or with its colon on a second one if it reads as a header. -/
def resultLines (text : List Char) : List (List Char) :=
  if (Section.ofLine? text).isSome then [Text.trimEnd text.dropLast, [':']]
  else if text.isEmpty then [] else [text]

/-- A summary line, behind a backslash if it would read as a header. -/
def markedLine (line : List Char) : List Char :=
  if needsEscape line then '\\' :: line else line

/-- The sections of a block, each with its lines. -/
def plainSections (block : DocBlock) : List (Section × List (List Char)) :=
  [(.arguments, block.arguments.map argumentLine),
    (.returns, resultLines block.returns.toList),
    (.failures, block.failures.map failureLine),
    (.tags, [',' :: tagList block.tags])]

/-- The lines of a text that is read as a block. -/
def sourceLines (block : DocBlock) : List (List Char) :=
  (block.summary.toList.splitOn '\n').map markedLine ++ sectionLines block.plainSections

/-- A text that is read as a block. -/
def source (block : DocBlock) : String :=
  String.ofList (Text.joinLines block.sourceLines)

/-! ### Lines of entries -/

theorem afterColon?_behindColon {text : List Char} (trimmed : Text.trim text = text) :
    afterColon? (':' :: behindColon text) = some text := by
  cases text with
  | nil => rfl
  | cons first rest => rw [behindColon, List.isEmpty_cons, if_neg Bool.false_ne_true, afterColon?,
      if_pos (by decide), trimmed]

theorem trimEnd_behindColon {text : List Char} (trimmed : Text.trim text = text) :
    Text.trimEnd (behindColon text) = behindColon text := by
  cases text with
  | nil => rfl
  | cons first rest =>
    rw [behindColon, List.isEmpty_cons, if_neg Bool.false_ne_true, Text.trimEnd_eq_self_iff,
      List.getLast?_cons_cons]
    exact ((Text.trim_eq_self_iff _).mp trimmed).2

theorem isSolid_of_isTrimmedLine {text : List Char} (single : IsTrimmedLine text) (filled : text ≠ []) :
    IsSolid text :=
  ⟨single.2, _, List.getLast?_eq_some_getLast filled,
    ((Text.trim_eq_self_iff _).mp single.1).2 _ (List.getLast_mem_getLast? filled)⟩

/-- What stands behind the colon of a head leaves its line solid. -/
theorem isSolid_colon {text : List Char} (single : IsTrimmedLine text) :
    IsSolid (':' :: behindColon text) := by
  cases text with
  | nil => exact ⟨by decide, ':', rfl, by decide⟩
  | cons first rest =>
    rw [behindColon, List.isEmpty_cons, if_neg Bool.false_ne_true]
    exact @isSolid_append [':', ' '] _ (by decide)
      (isSolid_of_isTrimmedLine single (List.cons_ne_nil first rest))

/-- A line with a head at its start and a text behind the colon is an entry by itself. -/
theorem isEntry_line {Head : Type} {head? : List Char → Option (Head × List Char)} {head : Head}
    {name inner text : List Char} {continues : Char → Bool} (named : IsName continues name)
    (trimmed : Text.trim text = text)
    (read : head? (name ++ inner ++ ':' :: behindColon text) = some (head, text)) :
    IsEntry head? 0 [name ++ inner ++ ':' :: behindColon text] head text := by
  refine ⟨_, [], text, rfl, ?_, ?_, List.forall_mem_nil _, ?_⟩
  · obtain ⟨first, others, rfl, starts, -⟩ := named
    refine @indentation_append [] _ (List.forall_mem_nil _) ?_
    intro character member
    obtain rfl := Option.some.inj member
    exact Text.isBlank_of_startsName starts
  · rwa [trim_head named (trimEnd_behindColon trimmed)]
  · rw [folded_singleton, trimmed]

/-! ### Lines that stand below a header as they are -/

/-- A line that is no header, holds no line feed and does not end with a blank. -/
def IsPlain (line : List Char) : Prop :=
  IsSolid line ∧ Section.ofLine? line = none

theorem isPlain_argumentLine {argument : Argument}
    (named : IsName Text.continuesName argument.name.toList)
    (hinted : ∀ hint ∈ argument.typeHint, '\n' ∉ hint.toList)
    (single : IsTrimmedLine argument.description.toList) : IsPlain (argumentLine argument) := by
  have hint : '\n' ∉ hintOf argument :=
    @of_hintOf _ (fun text => '\n' ∉ text) List.not_mem_nil hinted
  constructor
  · refine isSolid_append ?_ (isSolid_colon single)
    simp [newline_not_mem_of_isName (by decide) named, hint]
  · have whole : argumentLine argument = (argument.name.toList ++ [' ']) ++
        '(' :: (hintOf argument ++ ')' :: ':' :: behindColon argument.description.toList) := by
      simp [argumentLine]
    rw [whole]
    exact ofLine?_eq_none (by decide) (by decide) fun colon => absurd colon (by decide)

theorem isPlain_failureLine {failure : Failure} (named : IsName continuesKind failure.kind.toList)
    (single : IsTrimmedLine failure.description.toList)
    (apart : failure.description = "" → Section.ofLine? (failure.kind.toList ++ [':']) = none) :
    IsPlain (failureLine failure) := by
  refine ⟨isSolid_append (newline_not_mem_of_isName (by decide) named) (isSolid_colon single), ?_⟩
  rw [failureLine]
  cases text : failure.description.toList with
  | nil => exact apart (String.toList_eq_nil_iff.mp text)
  | cons first rest =>
    have starts := ((Text.trim_eq_self_iff _).mp single.1).1 first (by rw [text]; rfl)
    refine ofLine?_eq_none (by decide) (by decide) fun _ => ⟨first, ?_, starts⟩
    simp [behindColon]

theorem isPlain_tagLine {tags : List String}
    (legible : ∀ tag ∈ tags,
      tag.toList ≠ [] ∧ Text.trim tag.toList = tag.toList ∧ '\n' ∉ tag.toList) :
    IsPlain (',' :: tagList tags) := by
  constructor
  · cases tags with
    | nil => exact ⟨by decide, ',', rfl, by decide⟩
    | cons first rest =>
      exact @isSolid_append [','] _ (by decide) (tagList_ends (List.cons_ne_nil first rest) legible).2
  · exact @ofLine?_eq_none [] _ ',' (by decide) (by decide) fun colon => absurd colon (by decide)

/-- A result that reads as a header is a keyword with its colon a space apart. -/
theorem exists_of_header_result {text : List Char} {opened : Section}
    (single : IsTrimmedLine text) (opens : Section.ofLine? text = some opened)
    (broken : ∃ keyword, text = keyword ++ [' ', ':'] ∧ Text.trimEnd keyword = keyword) :
    ∃ keyword, text = keyword ++ [' ', ':'] ∧ resultLines text = [keyword, [':']] ∧
      Text.trim keyword = keyword ∧ keyword ≠ [] ∧ IsPlain keyword := by
  obtain ⟨keyword, rfl, ended⟩ := broken
  have start := ((Text.trim_eq_self_iff _).mp single.1).1
  have filled : keyword ≠ [] := by
    rintro rfl
    exact absurd (start ' ' rfl) (by decide)
  have trimmed : Text.trim keyword = keyword := by
    refine (Text.trim_eq_self_iff_and _).mpr ⟨(Text.trimStart_eq_self_iff _).mpr ?_, ended⟩
    rwa [List.head?_append_of_ne_nil _ filled] at start
  have lines : resultLines (keyword ++ [' ', ':']) = [keyword, [':']] := by
    rw [resultLines, opens, Option.isSome_some, if_pos rfl, List.append_cons, List.dropLast_concat,
      Text.trimEnd_concat_of_blank (by decide), ended]
  refine ⟨keyword, rfl, lines, trimmed, filled, ?_, ?_⟩
  · exact isSolid_of_isTrimmedLine ⟨trimmed, fun feed => single.2 (List.mem_append_left _ feed)⟩ filled
  · refine Option.eq_none_iff_forall_ne_some.mpr fun other header => ?_
    obtain ⟨word, inner, whole, -, -⟩ := exists_of_ofLine? header
    have none : Section.ofLine? (keyword ++ [' ', ':']) = none := by
      rw [← trimmed, whole, List.append_assoc, List.singleton_append]
      exact ofLine?_eq_none (by decide) (by decide) fun _ => ⟨':', by decide, by decide⟩
    exact Option.some_ne_none _ (opens.symm.trans none)

/-! ### Results that were folded -/

/-- Where a header is taken apart at a space into two trimmed texts, the second one is its colon. -/
theorem eq_colon_of_ofLine?_spaced {first second : List Char} {opened : Section}
    (start : Text.trim first = first ∧ first ≠ []) (stop : Text.trim second = second ∧ second ≠ [])
    (opens : Section.ofLine? (first ++ ' ' :: second) = some opened) : second = [':'] := by
  have leads := Text.trimStart_append_of_trimmed ((Text.trim_eq_self_iff_and _).mp start.1).1 start.2
  have whole : Text.trim (first ++ ' ' :: second) = first ++ ' ' :: second := by
    have both := @Text.trim_spaced_of_trimmed [first, second]
      (by simp [start.1, start.2, stop.1, stop.2])
    rwa [Text.spaced_cons_cons, Text.spaced, List.intercalate_singleton] at both
  obtain ⟨keyword, blanks, parts, -, -⟩ := exists_of_ofLine? opens
  obtain ⟨inner, rfl⟩ : ∃ inner, second = inner ++ [':'] := by
    refine List.getLast?_eq_some_iff.mp ?_
    have last := congrArg List.getLast? (whole.symm.trans parts)
    rwa [List.getLast?_concat, List.getLast?_append_of_ne_nil _ (List.cons_ne_nil _ _),
      List.getLast?_cons_of_ne_nil stop.2] at last
  have apart : first ++ ' ' :: (inner ++ [':']) = first ++ [' '] ++ inner ++ [':'] := by simp
  rw [apart, ofLine?_concat_colon] at opens
  -- A space with something behind it would be part of the keyword.
  have none : Text.trimEnd inner = [] := by
    by_contra solid
    refine absurd (isLetter_of_ofKeyword?_lower opens ' ' ?_) (by decide)
    rw [List.append_assoc, Text.trim, leads, ← List.append_assoc, Text.trimEnd_append,
      if_neg fun empty => solid (List.isEmpty_iff.mp empty)]
    simp
  have starts : Text.trimStart inner = inner := by
    have ends := Text.trim_append_cons_blanks inner (show Text.isBlank ':' = false by decide)
      (List.forall_mem_nil _)
    exact List.append_cancel_right (ends.symm.trans stop.1)
  cases inner with
  | nil => rfl
  | cons next others =>
    rw [Text.trimEnd_cons_of_not_blank ((Text.trimStart_eq_self_iff _).mp starts next rfl)] at none
    exact absurd none (List.cons_ne_nil _ _)

/-- What lines fold to reads as a header only if the lines kept its colon apart. -/
theorem ofLine?_folded {lines : List (List Char)}
    (plain : ∀ line ∈ lines, Section.ofLine? line = none) :
    Section.ofLine? (folded lines) = none ∨
      ∃ keyword, folded lines = keyword ++ [' ', ':'] ∧ Text.trimEnd keyword = keyword := by
  have each : ∀ piece ∈ (lines.map Text.trim).filter fun line => !line.isEmpty,
      (piece ≠ [] ∧ Text.trim piece = piece) ∧ Section.ofLine? piece = none := by
    intro piece member
    obtain ⟨trimmed, line, inside, rfl⟩ := of_mem_pieces member
    exact ⟨trimmed, (ofLine?_of_trim_eq (Text.trim_trim line)).trans (plain line inside)⟩
  rw [folded, ← Text.spaced]
  generalize (lines.map Text.trim).filter (fun line => !line.isEmpty) = pieces at each ⊢
  cases pieces with
  | nil => exact .inl rfl
  | cons first rest =>
    obtain ⟨here, later⟩ := List.forall_mem_cons.mp each
    cases rest with
    | nil =>
      rw [Text.spaced, List.intercalate_singleton]
      exact .inl here.2
    | cons second others =>
      rw [Text.spaced_cons_cons]
      cases opens : Section.ofLine? (first ++ ' ' :: Text.spaced (second :: others)) with
      | none => exact .inl rfl
      | some opened =>
        have below : Text.spaced (second :: others) = [':'] :=
          eq_colon_of_ofLine?_spaced here.1.symm
            ⟨Text.trim_spaced_of_trimmed fun piece member => (later piece member).1,
              Text.spaced_ne_nil_of_filled (fun piece member => (later piece member).1.1)
                (List.cons_ne_nil second others)⟩ opens
        rw [below]
        exact .inr ⟨first, rfl, ((Text.trim_eq_self_iff_and _).mp here.1.2).2⟩

/-! ### What is read is expressible -/

/-- A failure without a description is not of a kind that would have made its line a header. -/
theorem ofLine?_kind_of_mem_failures {text : String} {failure : Failure}
    (member : failure ∈ (parse text).failures) (silent : failure.description = "") :
    Section.ofLine? (failure.kind.toList ++ [':']) = none := by
  obtain ⟨entry, line, rfl, -, -, noHeader, spill, read, nothing⟩ := exists_of_mem_failures member
  obtain ⟨-, inner, tail, rfl, rfl, between⟩ := exists_of_failureHead? read
  have blank : Text.trim tail = [] := by
    rw [← Text.trim_trim]
    refine nothing ?_
    rwa [failureOf, ← String.toList_eq_nil_iff, String.toList_ofList] at silent
  rw [ofLine?_append_colon _ ((Text.trim_eq_nil_iff tail).mp blank),
    Text.trim_append_blanks _ between] at noHeader
  rwa [failureOf, String.toList_ofList, ofLine?_concat_colon]

theorem isExpressible_parse (text : String) : (parse text).IsExpressible where
  toIsWellFormed := isWellFormed_parse text
  silentKinds failure member := ofLine?_kind_of_mem_failures member
  returnsLines := by
    rw [parse_returns]
    refine ofLine?_folded fun line member => ?_
    obtain ⟨lines, part, inside⟩ := List.mem_flatten.mp member
    exact (of_mem_partsOf part line inside).2
  summaryStarts line member := (of_mem_summary_parse line member).2

/-! ### What is expressible is read -/

section

variable {block : DocBlock}

theorem IsWellFormed.read_argumentLines (formed : block.IsWellFormed) :
    (entries argumentHead? (block.arguments.map argumentLine)).map argumentOf = block.arguments := by
  have each : ∀ argument ∈ block.arguments, IsEntry argumentHead? 0 [argumentLine argument]
      (argument.name.toList, hintOf argument) argument.description.toList := by
    intro argument member
    have trimmed := (formed.argumentTexts argument member).1
    have named := formed.argumentNames argument member
    have hinted := @of_hintOf argument (fun text => Text.trim text = text ∧ ')' ∉ text)
      ⟨rfl, List.not_mem_nil⟩ fun hint given =>
        (formed.hints argument member hint given).2.imp_right And.left
    exact isEntry_line named trimmed
      (argumentHead?_some (afterColon?_behindColon trimmed) named hinted.2 hinted.1)
  rw [entries_map each, List.map_map]
  refine (List.map_congr_left fun argument member => ?_).trans (List.map_id _)
  have hint := typeHint_hintOf fun hint given => (formed.hints argument member hint given).1
  rw [Function.comp_apply, argumentOf, hint, String.ofList_toList, String.ofList_toList, id]

theorem IsWellFormed.read_failureLines (formed : block.IsWellFormed) :
    (entries failureHead? (block.failures.map failureLine)).map failureOf = block.failures := by
  have each : ∀ failure ∈ block.failures, IsEntry failureHead? 0 [failureLine failure]
      failure.kind.toList failure.description.toList := by
    intro failure member
    have trimmed := (formed.failureTexts failure member).1
    have named := formed.failureKinds failure member
    have entry := @isEntry_line _ failureHead? _ _ [] _ _ named trimmed <| by
      rw [List.append_nil]
      exact failureHead?_eq_some (afterColon?_behindColon trimmed) named
    rwa [List.append_nil] at entry
  rw [entries_map each, List.map_map]
  refine (List.map_congr_left fun failure _ => ?_).trans (List.map_id _)
  rw [Function.comp_apply, failureOf, String.ofList_toList, String.ofList_toList, id]

/-- The lines of a result fold back to it, and stand below a header as they are. -/
theorem IsExpressible.read_resultLines (expressible : block.IsExpressible) :
    folded (resultLines block.returns.toList) = block.returns.toList ∧
      ∀ line ∈ resultLines block.returns.toList, IsPlain line := by
  have single := expressible.returnsText
  cases opens : Section.ofLine? block.returns.toList with
  | some opened =>
    have broken := expressible.returnsLines.resolve_left fun none =>
      Option.some_ne_none _ (opens.symm.trans none)
    obtain ⟨keyword, whole, lines, trimmed, filled, plain⟩ :=
      exists_of_header_result single opens broken
    have pieces : ([keyword, [':']].map Text.trim).filter (fun line => !line.isEmpty) =
        [keyword, [':']] := by
      simp [trimmed, filled, show Text.trim [':'] = [':'] by decide]
    rw [lines, whole]
    refine ⟨?_, List.forall_mem_cons.mpr ⟨plain, List.forall_mem_singleton.mpr ?_⟩⟩
    · rw [folded, pieces, ← Text.spaced, Text.spaced_cons_cons, Text.spaced,
        List.intercalate_singleton]
    · exact ⟨⟨by decide, ':', rfl, by decide⟩, by decide⟩
  | none =>
    rw [resultLines, opens, Option.isSome_none, if_neg Bool.false_ne_true]
    cases text : block.returns.toList with
    | nil => exact ⟨rfl, List.forall_mem_nil _⟩
    | cons first rest =>
      rw [text] at single opens
      refine ⟨(folded_singleton _).trans single.1, List.forall_mem_singleton.mpr ⟨?_, opens⟩⟩
      exact isSolid_of_isTrimmedLine single (List.cons_ne_nil first rest)

/-- A comma in front of the tags is one more cut, with nothing in front of it. -/
theorem tagsOf_comma (text : List Char) : tagsOf (',' :: text) = tagsOf text := by
  rw [tagsOf, cutTags_ordinary (by decide) (by decide), if_pos (by decide)]
  rfl

theorem read_tagLine {tags : List String}
    (legible : ∀ tag ∈ tags,
      tag.toList ≠ [] ∧ Text.trim tag.toList = tag.toList ∧ '\n' ∉ tag.toList) :
    (tagsOf (folded [',' :: tagList tags])).map String.ofList = tags := by
  obtain ⟨⟨-, last, ends, solid⟩, -⟩ := isPlain_tagLine legible
  have trimmed : Text.trim (',' :: tagList tags) = ',' :: tagList tags := by
    refine (Text.trim_eq_self_iff _).mpr ⟨fun first member => ?_, fun character member => ?_⟩
    · obtain rfl := Option.some.inj member
      decide
    · obtain rfl := Option.some.inj (ends.symm.trans member)
      exact solid
  rw [folded_singleton, trimmed, tagsOf_comma, tagsOf_tagList fun tag member =>
    ⟨(legible tag member).1, (legible tag member).2.1⟩, List.map_map]
  exact (List.map_congr_left fun tag _ => String.ofList_toList).trans (List.map_id _)

/-- The line that is written for a summary line is no header, and the summary line is read from it. -/
theorem unescapedLine_markedLine {line : List Char} (ended : Text.trimEnd line = line)
    (starts : Text.trim line = line ∨ needsEscape line = true) :
    Section.ofLine? (markedLine line) = none ∧ Text.trimEnd (markedLine line) = markedLine line ∧
      unescapedLine (Text.trim (markedLine line)) = line := by
  unfold markedLine
  split
  · next needed =>
    have whole : Text.trimEnd ('\\' :: line) = '\\' :: line := by
      rw [Text.trimEnd_cons_of_not_blank (by decide), ended]
    refine ⟨ofLine?_backslash line, whole, ?_⟩
    rw [Text.trim_cons_of_not_blank (by decide), ended, unescapedLine, needed]
    rfl
  · next plain =>
    have noEscape := Bool.eq_false_iff.mpr plain
    have trimmed := starts.resolve_right plain
    rw [trimmed]
    refine ⟨ofLine?_of_not_readsAsHeader ?_, ended, unescapedLine_eq_self noEscape ended⟩
    rwa [needsEscape, trimmed] at noEscape

theorem IsExpressible.summary_markedLine (expressible : block.IsExpressible) :
    ∀ line ∈ block.summary.toList.splitOn '\n',
      Section.ofLine? (markedLine line) = none ∧ Text.trimEnd (markedLine line) = markedLine line ∧
        unescapedLine (Text.trim (markedLine line)) = line :=
  fun line member => unescapedLine_markedLine (expressible.summaryEnds line member)
    (expressible.summaryStarts line member)

theorem newline_notMem_markedLine {line : List Char} (noFeed : '\n' ∉ line) :
    '\n' ∉ markedLine line := by
  unfold markedLine
  split
  · rw [List.mem_cons, not_or]
    exact ⟨by decide, noFeed⟩
  · exact noFeed

theorem IsExpressible.isPlain (expressible : block.IsExpressible) :
    ∀ written ∈ block.plainSections, ∀ line ∈ written.2, IsPlain line := by
  have arguments : ∀ line ∈ block.arguments.map argumentLine, IsPlain line :=
    List.forall_mem_map.mpr fun argument member =>
      isPlain_argumentLine (expressible.argumentNames argument member)
        (fun hint given => (expressible.hints argument member hint given).2.2.2)
        (expressible.argumentTexts argument member)
  have failures : ∀ line ∈ block.failures.map failureLine, IsPlain line :=
    List.forall_mem_map.mpr fun failure member =>
      isPlain_failureLine (expressible.failureKinds failure member)
        (expressible.failureTexts failure member) (expressible.silentKinds failure member)
  have tags : ∀ line ∈ [',' :: tagList block.tags], IsPlain line :=
    List.forall_mem_singleton.mpr (isPlain_tagLine expressible.tags)
  exact List.forall_mem_cons.mpr ⟨arguments, List.forall_mem_cons.mpr
    ⟨expressible.read_resultLines.2, List.forall_mem_cons.mpr
      ⟨failures, List.forall_mem_singleton.mpr tags⟩⟩⟩

/-- The lines of the source of a block are those that it was put together from. -/
theorem IsExpressible.lines_source (expressible : block.IsExpressible) :
    Text.lines block.source.toList = block.sourceLines := by
  have sections : ∀ group ∈ block.plainSections.map fun written => written.1.header :: written.2,
      group ≠ [] ∧ Text.AreLines group := by
    refine List.forall_mem_map.mpr fun written member => ⟨List.cons_ne_nil _ _, ?_⟩
    refine areLines_of_isSolid (List.forall_mem_cons.mpr ⟨isSolid_header written.1, ?_⟩)
    exact fun line inside => (expressible.isPlain written member line inside).1
  have summary : ∀ line ∈ (block.summary.toList.splitOn '\n').map markedLine,
      '\n' ∉ line ∧ line.getLast? ≠ some '\r' := by
    refine List.forall_mem_map.mpr fun line member => ⟨?_, ?_⟩
    · exact newline_notMem_markedLine (Text.newline_notMem_of_mem_splitOn member)
    · exact getLast?_ne_return (expressible.summary_markedLine line member).2.1
  rw [source, String.toList_ofList]
  exact Text.lines_joinLines (Text.areLines_append summary (Text.areLines_intercalate sections)
    (Text.intercalate_cons_ne_nil (List.cons_ne_nil _ _) _))

/-- The headers cut the source of a block into its summary and its sections. -/
theorem IsExpressible.parts_source (expressible : block.IsExpressible) :
    summaryOf (parts (Text.lines block.source.toList)).1 = block.summary.toList ∧
      filledParts (parts (Text.lines block.source.toList)).2 = block.plainSections := by
  have summary := expressible.summary_markedLine
  have read : (block.summary.toList.splitOn '\n').map
      ((fun line => unescapedLine (Text.trim line)) ∘ markedLine) =
        block.summary.toList.splitOn '\n' :=
    (List.map_congr_left fun line member => (summary line member).2.2).trans (List.map_id _)
  have joined : Text.joinLines (block.summary.toList.splitOn '\n') = block.summary.toList :=
    List.intercalate_splitOn '\n'
  rw [expressible.lines_source, sourceLines, parts_append
    (List.forall_mem_map.mpr fun line member => (summary line member).1), lead_sectionLines,
    List.append_nil]
  constructor
  · rw [summaryOf, List.map_map, read, joined, expressible.summary]
  · exact filledParts_sectionLines
      (fun written member line inside => (expressible.isPlain written member line inside).2)
      (fun written member line inside =>
        isFilled_of_isSolid (expressible.isPlain written member line inside).1)

/-- An expressible block is read from its source. -/
theorem IsExpressible.parse_source (expressible : block.IsExpressible) :
    parse block.source = block := by
  obtain ⟨summary, sections⟩ := expressible.parts_source
  have found (wanted : Section) : partsOf wanted (parts (Text.lines block.source.toList)).2 =
      (block.plainSections.filter fun written => written.1 == wanted).map Prod.snd := by
    rw [partsOf_eq, sections]
  have arguments : partsOf .arguments (parts (Text.lines block.source.toList)).2 =
      [block.arguments.map argumentLine] := found .arguments
  have returns : partsOf .returns (parts (Text.lines block.source.toList)).2 =
      [resultLines block.returns.toList] := found .returns
  have failures : partsOf .failures (parts (Text.lines block.source.toList)).2 =
      [block.failures.map failureLine] := found .failures
  have tags : partsOf .tags (parts (Text.lines block.source.toList)).2 =
      [[',' :: tagList block.tags]] := found .tags
  unfold parse
  simp only [summary, arguments, returns, failures, tags, List.flatMap_singleton, List.flatten_singleton,
    expressible.read_argumentLines, expressible.read_failureLines, expressible.read_resultLines.1,
    read_tagLine expressible.tags, String.ofList_toList]
  rw [Keyed.putAll_of_nodup (by rw [List.nil_append]; exact expressible.argumentsDistinct),
    Keyed.putAll_of_nodup (by rw [List.nil_append]; exact expressible.failuresDistinct)]
  rfl

end

/-- A result that reads as a header is lost where a block is written, on one line, but a text can say it. -/
example :
    let block : DocBlock := ⟨"", [], "Returns :", [], []⟩
    parse block.source = block ∧ parse block.render = empty := by decide +kernel

/-- The blocks that are read are the expressible ones. -/
theorem range_parse : Set.range parse = {block | block.IsExpressible} := by
  ext block
  constructor
  · rintro ⟨text, rfl⟩
    exact isExpressible_parse text
  · exact fun expressible => ⟨block.source, expressible.parse_source⟩

end ApiSurface.DocBlock
