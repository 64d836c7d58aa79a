/-
This file proves that a block that reads back as itself has no stray headers: no line that it writes
below a header reads as one. A stray header would be passed over by the reader, so what is read from the
text would weigh less than what was written. That argument leaves out the tags, whose weight reading may
change; but they are a single line, and if that line were a header there would be no tags.
-/

import ApiSurface.Proofs.DocBlock.RoundTrip
import ApiSurface.Proofs.DocBlock.Weight

namespace ApiSurface.DocBlock

open Text (weight weight_flatten_cons weight_flatten_append)

/-! ### The weight of parts -/

/-- The parts weigh as much as the lines that are no headers. -/
theorem weight_parts (lines : List (List Char)) :
    weight (parts lines).1.flatten + ((parts lines).2.map fun part => weight part.2.flatten).sum =
      weight (plainLines lines).flatten := by
  induction lines with
  | nil => rfl
  | cons line rest inductionHypothesis =>
    cases opens : Section.ofLine? line with
    | some opened =>
      rw [parts_cons_opening opens, plainLines_cons_opening opens, ← inductionHypothesis]
      exact Nat.zero_add _
    | none =>
      rw [parts_cons opens, plainLines_cons opens, weight_flatten_cons, weight_flatten_cons,
        ← inductionHypothesis, Nat.add_assoc]

/-- Lines that weigh no more than those of them that are no headers have no headers among them. -/
theorem noHeader_of_weight_le {lines : List (List Char)}
    (kept : weight lines.flatten ≤ weight (plainLines lines).flatten) :
    ∀ line ∈ lines, Section.ofLine? line = none := by
  intro line member
  by_contra header
  have whole :=
    Text.weight_flatten_filter_add (fun line => (Section.ofLine? line).isNone) lines
  have lost : weight (lines.filter fun line => !(Section.ofLine? line).isNone).flatten = 0 := by
    rw [plainLines] at kept
    omega
  have inside : line ∈ lines.filter fun line => !(Section.ofLine? line).isNone :=
    List.mem_filter.mpr ⟨member, (Bool.not_eq_true' _).mpr
      (Bool.eq_false_iff.mpr (mt Option.isNone_iff_eq_none.mp header))⟩
  refine header (ofLine?_of_blank fun character there => ?_)
  exact Text.weight_eq_zero_iff.mp lost character (List.mem_flatten_of_mem inside there)

theorem bodyWeight_le (found : List (Section × List (List Char))) :
    bodyWeight found ≤ (found.map fun part => weight part.2.flatten).sum := by
  refine List.sum_le_sum fun part _ => ?_
  split
  · exact Nat.zero_le _
  · exact Nat.le_refl _

theorem bodyWeight_append (first second : List (Section × List (List Char))) :
    bodyWeight (first ++ second) = bodyWeight first + bodyWeight second := by
  rw [bodyWeight, List.map_append, List.sum_append, bodyWeight, bodyWeight]

section

variable {gap : List (List Char)} (empty : gap = [] ∨ gap = [[]])

include empty

theorem weight_plainLines_append_gap (lines : List (List Char)) :
    weight (plainLines (lines ++ gap)).flatten = weight (plainLines lines).flatten := by
  have none : weight (plainLines gap).flatten = 0 := by rcases empty with rfl | rfl <;> rfl
  rw [plainLines, List.filter_append, weight_flatten_append, ← plainLines, ← plainLines, none,
    Nat.add_zero]

/-- Behind a header on a single line, nothing is left to be read. -/
theorem bodyWeight_parts_of_single {lines : List (List Char)} (single : lines.length ≤ 1) :
    bodyWeight (parts (lines ++ gap)).2 = 0 := by
  have none : weight (parts gap).1.flatten = 0 ∧ (parts gap).2 = [] := by
    rcases empty with rfl | rfl <;> exact ⟨rfl, rfl⟩
  cases lines with
  | nil =>
    rw [List.nil_append, none.2]
    rfl
  | cons line rest =>
    obtain rfl := List.length_eq_zero_iff.mp (Nat.le_zero.mp (Nat.le_of_succ_le_succ single))
    rw [List.cons_append, List.nil_append]
    cases opens : Section.ofLine? line with
    | some opened =>
      rw [parts_cons_opening opens, none.2, bodyWeight, List.map_singleton, none.1, ite_self]
      rfl
    | none =>
      rw [parts_cons opens, none.2]
      rfl

end

/-- What is read from sections that were written, tags apart, weighs no more than their lines that are no
headers. A section of tags is a single line, so nothing of it comes into another section. -/
theorem bodyWeight_sectionLines_le {sections : List (Section × List (List Char))}
    (single : ∀ written ∈ sections, written.1 = .tags → written.2.length ≤ 1) :
    bodyWeight (parts (sectionLines sections)).2 ≤
      (sections.map fun written =>
        if written.1 = .tags then 0 else weight (plainLines written.2).flatten).sum := by
  induction sections with
  | nil => exact Nat.le_refl _
  | cons written rest inductionHypothesis =>
    obtain ⟨here, later⟩ := List.forall_mem_cons.mp single
    obtain ⟨gap, empty, cut⟩ := exists_parts_sectionLines_cons written rest
    rw [cut, bodyWeight_append, List.map_cons, List.sum_cons]
    refine Nat.add_le_add ?_ (inductionHypothesis later)
    rw [bodyWeight, List.map_cons, List.sum_cons, ← bodyWeight]
    by_cases tags : written.1 = .tags
    · rw [if_pos tags, if_pos tags, bodyWeight_parts_of_single empty (here tags)]
    · have found := bodyWeight_le (parts (written.2 ++ gap)).2
      have whole := weight_parts (written.2 ++ gap)
      rw [weight_plainLines_append_gap empty] at whole
      rw [if_neg tags, if_neg tags]
      dsimp only
      omega

/-! ### The sections of a block -/

theorem linesUnder_tags_of_mem {block : DocBlock} {line : List Char}
    (member : line ∈ block.linesUnder .tags) : block.linesUnder .tags = [line] := by
  rw [linesUnder] at member ⊢
  split at member
  · exact absurd member List.not_mem_nil
  · next filled => rw [if_neg filled, List.mem_singleton.mp member]

theorem length_linesUnder_tags_le (block : DocBlock) : (block.linesUnder .tags).length ≤ 1 := by
  rw [linesUnder]
  split
  · exact Nat.zero_le _
  · exact Nat.le_refl _

theorem sum_writtenSections (block : DocBlock) :
    (block.writtenSections.map fun written =>
        if written.1 = .tags then 0 else weight (plainLines written.2).flatten).sum =
      (bodySections.map fun opened => weight (plainLines (block.linesUnder opened)).flatten).sum := by
  have one (opened : Section) : ((block.sectionOf? opened).map fun written =>
        if written.1 = .tags then 0 else weight (plainLines written.2).flatten).sum =
      if opened = .tags then 0 else weight (plainLines (block.linesUnder opened)).flatten := by
    unfold sectionOf?
    split
    · next none =>
      rw [List.isEmpty_iff.mp none]
      exact (ite_self _).symm
    · rw [List.map_singleton, List.sum_singleton]
  rw [writtenSections, bodySections]
  simp only [List.flatMap_cons, List.flatMap_nil, List.map_append, List.sum_append, one, List.map_cons,
    List.map_nil, List.sum_cons, List.sum_nil, List.append_nil]
  rfl

theorem of_mem_flatten_partsOf {wanted : Section} {found : List (Section × List (List Char))}
    {line : List Char} (member : line ∈ (partsOf wanted found).flatten) :
    isFilled line = true ∧ ∃ part ∈ found, part.1 = wanted ∧ line ∈ part.2 := by
  obtain ⟨lines, inside, there⟩ := List.mem_flatten.mp member
  obtain ⟨part, kept, rfl⟩ := List.mem_map.mp inside
  obtain ⟨known, same⟩ := List.mem_filter.mp kept
  obtain ⟨here, filled⟩ := List.mem_filter.mp there
  exact ⟨filled, part, known, beq_iff_eq.mp same, here⟩

/-- Where the section of tags has nothing but headers among its lines, and no other section has any, no
tags are read. -/
theorem not_isFilled_of_mem_tags {sections : List (Section × List (List Char))}
    (plain : ∀ written ∈ sections, written.1 ≠ .tags → ∀ line ∈ written.2, Section.ofLine? line = none)
    (stray : ∀ written ∈ sections, written.1 = .tags → plainLines written.2 = []) :
    ∀ part ∈ (parts (sectionLines sections)).2, part.1 = .tags → ∀ line ∈ part.2,
      isFilled line = false := by
  induction sections with
  | nil => exact fun part member => absurd member List.not_mem_nil
  | cons written rest inductionHypothesis =>
    obtain ⟨plainHere, plainLater⟩ := List.forall_mem_cons.mp plain
    obtain ⟨strayHere, strayLater⟩ := List.forall_mem_cons.mp stray
    obtain ⟨gap, empty, cut⟩ := exists_parts_sectionLines_cons written rest
    have noGap : parts gap = (gap, []) := by rcases empty with rfl | rfl <;> rfl
    rw [cut]
    refine List.forall_mem_append.mpr ⟨?_, inductionHypothesis plainLater strayLater⟩
    by_cases tags : written.1 = .tags
    · -- only the empty line behind the section is left to be read
      have nothing : ∀ line ∈ plainLines (written.2 ++ gap), isFilled line = false := by
        rw [plainLines, List.filter_append, ← plainLines, strayHere tags, List.nil_append]
        intro line member
        rw [eq_nil_of_mem_gap empty (List.mem_filter.mp member).1]
        rfl
      obtain ⟨lead, found⟩ := parts_subset (written.2 ++ gap)
      exact List.forall_mem_cons.mpr ⟨fun _ line member => nothing line (lead member),
        fun part member _ line inside => nothing line (found part member inside)⟩
    · rw [parts_append (plainHere tags), noGap]
      exact List.forall_mem_cons.mpr ⟨fun same => absurd same tags,
        fun part member => absurd member List.not_mem_nil⟩

section

variable {block : DocBlock} (formed : block.IsWellFormed) (same : parse block.render = block)

include formed same

/-- No line of a section without tags is a header: what is read weighs as much as what was written, and only
the lines that are no headers are read. -/
theorem noHeader_of_parse_render_body {opened : Section} (body : opened ∈ bodySections) :
    ∀ line ∈ block.linesUnder opened, Section.ofLine? line = none := by
  obtain ⟨gap, -, cut⟩ := formed.exists_parts_render
  have single : ∀ written ∈ block.writtenSections, written.1 = .tags → written.2.length ≤ 1 := by
    intro written member tags
    rw [mem_writtenSections member, tags]
    exact block.length_linesUnder_tags_le
  have read := sum_linesUnder_parse_le block.render
  have written := bodyWeight_sectionLines_le single
  rw [same, cut] at read
  rw [sum_writtenSections] at written
  have less (opened : Section) : weight (plainLines (block.linesUnder opened)).flatten ≤
      weight (block.linesUnder opened).flatten := Text.weight_flatten_filter_le _ _
  have kept : weight (block.linesUnder opened).flatten ≤
      weight (plainLines (block.linesUnder opened)).flatten := by
    have total := Nat.le_trans read written
    have arguments := less .arguments
    have returns := less .returns
    have failures := less .failures
    simp only [bodySections, List.map_cons, List.map_nil, List.sum_cons, List.sum_nil] at total
    cases opened with
    | tags => exact absurd rfl ((mem_bodySections_iff _).mp body)
    | _ => omega
  exact noHeader_of_weight_le kept

/-- The line of the tags is no header, because no tags would be read then. -/
theorem noHeader_of_parse_render_tags :
    ∀ line ∈ block.linesUnder .tags, Section.ofLine? line = none := by
  intro line member
  by_contra header
  obtain ⟨gap, -, cut⟩ := formed.exists_parts_render
  have none : (partsOf .tags (parts (sectionLines block.writtenSections)).2).flatten = [] := by
    refine List.eq_nil_iff_forall_not_mem.mpr fun other kept => ?_
    obtain ⟨filled, part, known, tags, inside⟩ := of_mem_flatten_partsOf kept
    refine Bool.noConfusion (filled.symm.trans
      (not_isFilled_of_mem_tags (fun written inside other => ?_) (fun written inside tags => ?_)
        part known tags other inside))
    · rw [mem_writtenSections inside]
      exact noHeader_of_parse_render_body formed same ((mem_bodySections_iff _).mpr other)
    · obtain ⟨opened, opens⟩ := Option.ne_none_iff_exists'.mp header
      rw [mem_writtenSections inside, tags, linesUnder_tags_of_mem member]
      exact plainLines_cons_opening opens []
  have tags : block.tags = [] := by
    rw [← same, parse_tags, cut, none]
    rfl
  rw [linesUnder, tags] at member
  exact List.not_mem_nil member

/-- A block that reads back as itself has no stray headers. -/
theorem noHeader_of_parse_render (opened : Section) :
    ∀ line ∈ block.linesUnder opened, Section.ofLine? line = none := by
  by_cases tags : opened = .tags
  · rw [tags]
    exact noHeader_of_parse_render_tags formed same
  · exact noHeader_of_parse_render_body formed same ((mem_bodySections_iff opened).mpr tags)

end

end ApiSurface.DocBlock
