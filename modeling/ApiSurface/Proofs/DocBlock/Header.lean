/-
This file proves how headers cut a block into parts. A header holds letters, blanks and the colon at its
end, so a line with anything else in it is none. A summary line that would read as a header is
written with a backslash in front, and taking that backslash away gives the line back without the blanks
in front of it: a line that needs no escape stays as it is, because a backslash before something that
reads as a header needs an escape itself. Below the summary nothing is escaped, so the cut is right only
as long as no line there reads as a header; then the parts are exactly the sections that were written, up
to the empty lines that keep them apart.
-/

import ApiSurface.DocBlock.Reader
import ApiSurface.Proofs.Text.Case
import ApiSurface.Proofs.Text.Search

namespace ApiSurface.DocBlock

/-! ### Lines that are headers -/

/-- A keyword in any case consists of letters. -/
theorem isLetter_of_ofKeyword?_lower {keyword : List Char} {opened : Section}
    (named : Section.ofKeyword? (Text.lower keyword) = some opened) :
    ∀ character ∈ keyword, Text.isLetter character = true := by
  have among {keywords : List (List Char)} (letters : keywords.all (·.all Text.isLetter) = true)
      (member : Text.lower keyword ∈ keywords) : (Text.lower keyword).all Text.isLetter = true :=
    List.all_eq_true.mp letters _ member
  have known : (Text.lower keyword).all Text.isLetter = true := by
    unfold Section.ofKeyword? at named
    split_ifs at named with arguments returns failures tags
    · exact among (by decide) arguments
    · exact among (by decide) returns
    · exact among (by decide) failures
    · exact among (by decide) (List.mem_singleton.mpr tags)
  exact fun character member => Text.isLetter_of_isLetter_toLower
    (List.all_eq_true.mp known _ (List.mem_map_of_mem member))

/-- A header is a keyword, blanks and a colon, perhaps with blanks around them. -/
theorem exists_of_ofLine? {line : List Char} {opened : Section}
    (opens : Section.ofLine? line = some opened) :
    ∃ keyword inner, Text.trim line = keyword ++ inner ++ [':'] ∧
      (∀ character ∈ keyword, Text.isLetter character = true) ∧
        ∀ character ∈ inner, Text.isBlank character = true := by
  obtain ⟨found, cut, named⟩ := Option.bind_eq_some_iff.mp opens
  refine ⟨Text.trimEnd found, found.rtakeWhile Text.isBlank, ?_, isLetter_of_ofKeyword?_lower named,
    fun _ => List.mem_rtakeWhile_imp⟩
  rw [Text.eq_append_of_dropTail? cut, Text.trimEnd, Text.dropEndWhile_eq_rdropWhile,
    List.rdropWhile_append_rtakeWhile]

/-- What a line opens that ends with a colon is up to the text in front of it, blanks aside. -/
theorem ofLine?_append_colon (text : List Char) {behind : List Char}
    (blank : ∀ character ∈ behind, Text.isBlank character = true) :
    Section.ofLine? (text ++ ':' :: behind) = Section.ofKeyword? (Text.lower (Text.trim text)) := by
  rw [Section.ofLine?, Text.trim_append_cons_blanks text (by decide) blank, Text.dropTail?_append]
  rfl

theorem ofLine?_concat_colon (text : List Char) :
    Section.ofLine? (text ++ [':']) = Section.ofKeyword? (Text.lower (Text.trim text)) :=
  ofLine?_append_colon text (List.forall_mem_nil _)

/-! ### Lines that are no headers -/

/-- The blanks around a line make no difference to what it opens. -/
theorem ofLine?_of_trim_eq {line other : List Char} (same : Text.trim line = Text.trim other) :
    Section.ofLine? line = Section.ofLine? other := by
  rw [Section.ofLine?, same, Section.ofLine?]

theorem ofLine?_of_blank {line : List Char}
    (blank : ∀ character ∈ line, Text.isBlank character = true) : Section.ofLine? line = none :=
  @ofLine?_of_trim_eq line [] ((Text.trim_eq_nil_iff line).mpr blank)

/-- A line is no header if it holds something that is neither a letter nor blank and is not a colon at
its end. -/
theorem ofLine?_eq_none {before behind : List Char} {character : Char}
    (noLetter : Text.isLetter character = false) (solid : Text.isBlank character = false)
    (inside : character = ':' → ∃ other ∈ behind, Text.isBlank other = false) :
    Section.ofLine? (before ++ character :: behind) = none := by
  refine Option.eq_none_iff_forall_ne_some.mpr fun opened opens => ?_
  obtain ⟨keyword, inner, trimmed, letters, between⟩ := exists_of_ofLine? opens
  obtain ⟨lead, tail, whole, leads, follows⟩ :=
    Text.exists_eq_append_trim (before ++ character :: behind)
  have apart : before ++ character :: behind = lead ++ keyword ++ inner ++ ':' :: tail := by
    rw [whole, trimmed]
    simp only [List.append_assoc, List.singleton_append]
  have early : character ∉ lead ++ keyword ++ inner := by
    simp only [List.mem_append, not_or]
    refine ⟨⟨fun member => ?_, fun member => ?_⟩, fun member => ?_⟩
    · exact Bool.false_ne_true (solid.symm.trans (leads _ member))
    · exact Bool.false_ne_true (noLetter.symm.trans (letters _ member))
    · exact Bool.false_ne_true (solid.symm.trans (between _ member))
  have late : character ∉ tail := fun member =>
    Bool.false_ne_true (solid.symm.trans (follows _ member))
  -- So the character is the colon itself, and only blanks stand behind that.
  obtain ⟨-, colon, rfl⟩ := (List.append_cons_inj_of_notMem early late).mp apart.symm
  obtain ⟨other, member, filled⟩ := inside colon.symm
  exact Bool.false_ne_true (filled.symm.trans (follows other member))

/-- A line that starts with a backslash is no header. -/
theorem ofLine?_backslash (line : List Char) : Section.ofLine? ('\\' :: line) = none :=
  @ofLine?_eq_none [] line '\\' (by decide) (by decide) fun colon => absurd colon (by decide)

theorem ofLine?_of_not_readsAsHeader {line : List Char} (plain : readsAsHeader line = false) :
    Section.ofLine? line = none := by
  cases line with
  | nil => rfl
  | cons first rest =>
    rw [readsAsHeader, Bool.or_eq_false_iff] at plain
    exact Option.not_isSome_iff_eq_none.mp (Bool.eq_false_iff.mp plain.1)

/-! ### Escaping -/

theorem readsAsHeader_of_trimStart {line : List Char}
    (header : readsAsHeader (Text.trimStart line) = true) : readsAsHeader line = true := by
  induction line with
  | nil => exact header
  | cons first rest inductionHypothesis =>
    cases blank : Text.isBlank first with
    | true =>
      rw [Text.trimStart_cons_of_blank blank] at header
      rw [readsAsHeader, blank, inductionHypothesis header, Bool.or_true, Bool.and_true,
        Bool.or_true]
    | false => rwa [Text.trimStart_cons_of_not_blank blank] at header

/-- A backslash before something that needs an escape needs one itself. -/
theorem needsEscape_backslash {line : List Char} (needed : needsEscape line = true)
    (trimmed : Text.trimEnd line = line) : needsEscape ('\\' :: line) = true := by
  have below : readsAsHeader line = true := by
    refine readsAsHeader_of_trimStart ?_
    rwa [needsEscape, Text.trim, Text.trimEnd_trimStart trimmed] at needed
  rw [needsEscape, Text.trim_cons_of_not_blank (by decide), trimmed, readsAsHeader, below,
    Bool.and_true, beq_self_eq_true, Bool.true_or, Bool.or_true]

theorem needsEscape_of_trim_eq {line other : List Char} (same : Text.trim line = Text.trim other) :
    needsEscape line = needsEscape other := by
  rw [needsEscape, same, needsEscape]

theorem needsEscape_trimStart (line : List Char) :
    needsEscape (Text.trimStart line) = needsEscape line := by
  refine needsEscape_of_trim_eq ?_
  have blanks : ∀ character ∈ line.takeWhile Text.isBlank, Text.isBlank character = true :=
    fun _ member => List.mem_takeWhile_imp member
  conv_rhs => rw [← List.takeWhile_append_dropWhile (p := Text.isBlank) (l := line)]
  exact (Text.trim_append_of_blank blanks _).symm

/-- A summary line is no header in the form in which it is written. -/
theorem ofLine?_escapedLine (line : List Char) : Section.ofLine? (escapedLine line) = none := by
  unfold escapedLine
  split
  · rw [ofLine?_of_trim_eq (Text.trim_append_of_blank (fun _ member => List.mem_takeWhile_imp member) _)]
    exact ofLine?_backslash _
  · next plain =>
    rw [← ofLine?_of_trim_eq (Text.trim_trim line)]
    exact ofLine?_of_not_readsAsHeader (Bool.eq_false_iff.mpr plain)

/-- A trimmed line that needs no escape stands for itself: a backslash before something that reads as a
header would need one. -/
theorem unescapedLine_eq_self {line : List Char} (plain : needsEscape line = false)
    (trimmed : Text.trimEnd line = line) : unescapedLine line = line := by
  cases line with
  | nil => rfl
  | cons first rest =>
    refine if_neg fun escaped => ?_
    obtain ⟨backslash, inner⟩ := Bool.and_eq_true_iff.mp escaped
    obtain rfl := of_decide_eq_true backslash
    rw [Text.trimEnd_cons_of_not_blank (by decide)] at trimmed
    have above := needsEscape_backslash inner (List.cons.inj trimmed).2
    exact Bool.false_ne_true (plain.symm.trans above)

/-- A summary line reads back without the blanks in front. -/
theorem unescapedLine_escapedLine {line : List Char} (ended : Text.trimEnd line = line) :
    unescapedLine (Text.trim (escapedLine line)) = Text.trimStart line := by
  have whole := Text.trimEnd_trimStart ended
  unfold escapedLine
  split
  · next needed =>
    rw [Text.trim_append_of_blank fun _ member => List.mem_takeWhile_imp member,
      Text.trim_cons_of_not_blank (by decide), whole, unescapedLine, needsEscape_trimStart, needed]
    rfl
  · next plain =>
    rw [Text.trim, whole]
    refine unescapedLine_eq_self ?_ whole
    rw [needsEscape_trimStart]
    exact Bool.eq_false_iff.mpr plain

theorem trimEnd_escapedLine {line : List Char} (ended : Text.trimEnd line = line) :
    Text.trimEnd (escapedLine line) = escapedLine line := by
  unfold escapedLine
  split
  · have solid : Text.trimEnd ('\\' :: Text.trimStart line) = '\\' :: Text.trimStart line := by
      rw [Text.trimEnd_cons_of_not_blank (by decide), Text.trimEnd_trimStart ended]
    rw [Text.trimEnd_eq_self_iff] at solid ⊢
    rwa [List.getLast?_append_of_ne_nil _ (List.cons_ne_nil _ _)]
  · exact ended

theorem mem_of_mem_escapedLine {line : List Char} {character : Char}
    (member : character ∈ escapedLine line) : character = '\\' ∨ character ∈ line := by
  unfold escapedLine at member
  split at member
  · rcases List.mem_append.mp member with blank | solid
    · exact .inr ((List.takeWhile_prefix _).mem blank)
    · exact (List.mem_cons.mp solid).imp_right Text.mem_of_mem_trimStart
  · exact .inr member

theorem eq_nil_of_escapedLine_eq_nil {line : List Char} (nothing : escapedLine line = []) :
    line = [] := by
  unfold escapedLine at nothing
  split at nothing
  · exact absurd (List.append_eq_nil_iff.mp nothing).2 (List.cons_ne_nil _ _)
  · exact nothing

/-! ### Parts -/

/-- The line that opens a section. -/
def Section.header : Section → List Char
  | .arguments => "Args:".toList
  | .returns => "Returns:".toList
  | .failures => "Raises:".toList
  | .tags => "Tags:".toList

theorem ofLine?_header (opened : Section) : Section.ofLine? opened.header = some opened := by
  cases opened <;> decide

theorem parts_cons {line : List Char} (plain : Section.ofLine? line = none)
    (rest : List (List Char)) :
    parts (line :: rest) = (line :: (parts rest).1, (parts rest).2) := by
  rw [parts, plain]

theorem parts_append {lines : List (List Char)}
    (plain : ∀ line ∈ lines, Section.ofLine? line = none) (rest : List (List Char)) :
    parts (lines ++ rest) = (lines ++ (parts rest).1, (parts rest).2) := by
  induction lines with
  | nil => rfl
  | cons line others inductionHypothesis =>
    have later := inductionHypothesis fun other member => plain other (List.mem_cons_of_mem _ member)
    rw [List.cons_append, parts_cons (plain line List.mem_cons_self), later, List.cons_append]

theorem parts_cons_opening {line : List Char} {opened : Section}
    (opens : Section.ofLine? line = some opened) (rest : List (List Char)) :
    parts (line :: rest) = ([], (opened, (parts rest).1) :: (parts rest).2) := by
  rw [parts, opens]

theorem parts_cons_header (opened : Section) (rest : List (List Char)) :
    parts (opened.header :: rest) = ([], (opened, (parts rest).1) :: (parts rest).2) :=
  parts_cons_opening (ofLine?_header opened) rest

/-- The lines that are no headers. -/
def plainLines (lines : List (List Char)) : List (List Char) :=
  lines.filter fun line => (Section.ofLine? line).isNone

theorem plainLines_cons_opening {line : List Char} {opened : Section}
    (opens : Section.ofLine? line = some opened) (rest : List (List Char)) :
    plainLines (line :: rest) = plainLines rest :=
  List.filter_cons_of_neg (by rw [opens]; exact Bool.false_ne_true)

theorem plainLines_cons {line : List Char} (plain : Section.ofLine? line = none)
    (rest : List (List Char)) : plainLines (line :: rest) = line :: plainLines rest :=
  List.filter_cons_of_pos (by rw [plain]; rfl)

/-- Cutting at headers only sorts the lines that are no headers. -/
theorem parts_subset (lines : List (List Char)) :
    (parts lines).1 ⊆ plainLines lines ∧ ∀ part ∈ (parts lines).2, part.2 ⊆ plainLines lines := by
  induction lines with
  | nil => exact ⟨List.Subset.refl _, fun _ member => absurd member List.not_mem_nil⟩
  | cons line rest inductionHypothesis =>
    obtain ⟨lead, found⟩ := inductionHypothesis
    cases opens : Section.ofLine? line with
    | some opened =>
      rw [parts_cons_opening opens, plainLines_cons_opening opens]
      exact ⟨List.nil_subset _, List.forall_mem_cons.mpr ⟨lead, found⟩⟩
    | none =>
      rw [parts_cons opens, plainLines_cons opens]
      exact ⟨List.cons_subset_cons line lead,
        fun part member => List.Subset.trans (found part member) (List.subset_cons_self line _)⟩

/-- Lines in front of a header are cut by themselves. -/
theorem parts_append_of_lead_eq_nil {rest : List (List Char)} (lead : (parts rest).1 = [])
    (lines : List (List Char)) :
    parts (lines ++ rest) = ((parts lines).1, (parts lines).2 ++ (parts rest).2) := by
  induction lines with
  | nil =>
    rw [List.nil_append, parts, List.nil_append]
    exact Prod.ext lead rfl
  | cons line others inductionHypothesis =>
    rw [List.cons_append]
    cases opens : Section.ofLine? line with
    | some opened =>
      rw [parts_cons_opening opens, parts_cons_opening opens, inductionHypothesis, List.cons_append]
    | none => rw [parts_cons opens, parts_cons opens, inductionHypothesis]

/-- Whether a line holds something else than blanks. -/
def isFilled (line : List Char) : Bool :=
  !(Text.trim line).isEmpty

/-- The parts without their blank lines. -/
def filledParts (found : List (Section × List (List Char))) : List (Section × List (List Char)) :=
  found.map fun part => (part.1, part.2.filter isFilled)

theorem partsOf_eq (wanted : Section) (found : List (Section × List (List Char))) :
    partsOf wanted found = ((filledParts found).filter fun part => part.1 == wanted).map Prod.snd := by
  rw [filledParts, List.filter_map, List.map_map]
  rfl

/-- The lines of sections that were written one below the other, an empty line apart. -/
def sectionLines (sections : List (Section × List (List Char))) : List (List Char) :=
  [[]].intercalate (sections.map fun written => written.1.header :: written.2)

theorem lead_sectionLines (sections : List (Section × List (List Char))) :
    (parts (sectionLines sections)).1 = [] := by
  cases sections with
  | nil => rfl
  | cons written rest =>
    rw [sectionLines, List.map_cons]
    cases rest with
    | nil => rw [List.map_nil, List.intercalate_singleton, parts_cons_header]
    | cons next others =>
      rw [List.map_cons, List.intercalate_cons_cons_left, parts_cons_header]

/-- The lines of a section are cut by themselves, perhaps with an empty line behind them. -/
theorem exists_parts_sectionLines_cons (written : Section × List (List Char))
    (rest : List (Section × List (List Char))) :
    ∃ gap, (gap = [] ∨ gap = [[]]) ∧ (parts (sectionLines (written :: rest))).2 =
      (written.1, (parts (written.2 ++ gap)).1) :: (parts (written.2 ++ gap)).2 ++
        (parts (sectionLines rest)).2 := by
  have lead := lead_sectionLines rest
  cases rest with
  | nil =>
    have same : sectionLines [written] = written.1.header :: (written.2 ++ []) := by
      rw [List.append_nil]
      exact List.intercalate_singleton
    refine ⟨[], .inl rfl, ?_⟩
    rw [same, parts_cons_header]
    exact (List.append_nil _).symm
  | cons next others =>
    have same : sectionLines (written :: next :: others) =
        written.1.header :: (written.2 ++ [[]] ++ sectionLines (next :: others)) := by
      rw [sectionLines, List.map_cons, List.map_cons, List.intercalate_cons_cons, List.cons_append,
        List.cons_append]
      rfl
    refine ⟨[[]], .inr rfl, ?_⟩
    rw [same, parts_cons_header, parts_append_of_lead_eq_nil lead, List.cons_append]

theorem eq_nil_of_mem_gap {gap : List (List Char)} (empty : gap = [] ∨ gap = [[]]) {line : List Char}
    (member : line ∈ gap) : line = [] := by
  rcases empty with rfl | rfl
  · exact absurd member List.not_mem_nil
  · exact List.mem_singleton.mp member

/-- Sections written one below the other are read as they were written. -/
theorem filledParts_sectionLines {sections : List (Section × List (List Char))}
    (plain : ∀ written ∈ sections, ∀ line ∈ written.2, Section.ofLine? line = none)
    (filled : ∀ written ∈ sections, ∀ line ∈ written.2, isFilled line = true) :
    filledParts (parts (sectionLines sections)).2 = sections := by
  induction sections with
  | nil => rfl
  | cons written rest inductionHypothesis =>
    obtain ⟨gap, empty, cut⟩ := exists_parts_sectionLines_cons written rest
    have later := inductionHypothesis
      (fun written member => plain written (List.mem_cons_of_mem _ member))
      (fun written member => filled written (List.mem_cons_of_mem _ member))
    have noGap : parts gap = (gap, []) ∧ gap.filter isFilled = [] := by
      rcases empty with rfl | rfl <;> exact ⟨rfl, rfl⟩
    have kept : (written.2 ++ gap).filter isFilled = written.2 := by
      rw [List.filter_append, noGap.2, List.append_nil]
      exact List.filter_eq_self.mpr (filled written List.mem_cons_self)
    rw [cut, parts_append (plain written List.mem_cons_self), noGap.1, filledParts, List.cons_append,
      List.nil_append, List.map_cons, kept, ← filledParts, later]

end ApiSurface.DocBlock
