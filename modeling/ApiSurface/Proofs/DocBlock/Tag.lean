/-
This file proves that a list of tags reads back. A tag that holds a comma or a quotation mark is
written between quotation marks, where a backslash stands before each mark and each backslash; any
other tag is written as it is, backslashes included, because outside of quotation marks a backslash
stands for itself. Either way the cut at the commas passes over the whole tag and gathers it.
-/

import ApiSurface.DocBlock.Reader
import ApiSurface.Proofs.DocBlock.Wrapping

namespace ApiSurface.DocBlock

/-! ### One tag -/

/-- What a tag becomes between quotation marks. -/
def escapedTag (tag : List Char) : List Char :=
  Text.escapeWith
    (fun character =>
      if character = '\\' || character = '"' then some ['\\', character] else none)
    tag

theorem escapedTag_cons (first : Char) (rest : List Char) :
    escapedTag (first :: rest) =
      (if first = '\\' || first = '"' then ['\\', first] else [first]) ++ escapedTag rest := by
  rw [escapedTag, Text.escapeWith, List.flatMap_cons]
  split <;> rfl

/-- Whether a tag is written between quotation marks. -/
def isQuoted (tag : List Char) : Bool :=
  tag.contains ',' || tag.contains '"'

theorem tagText_eq (tag : String) :
    tagText tag =
      if isQuoted tag.toList then '"' :: escapedTag tag.toList ++ ['"'] else tag.toList := rfl

theorem cutTags_ordinary {character : Char} (noQuote : character ≠ '"')
    (noBackslash : character ≠ '\\') (quoted : Bool) (current rest : List Char) :
    cutTags quoted current (character :: rest) =
      if character = ',' && !quoted then current :: cutTags quoted [] rest
      else cutTags quoted (current ++ [character]) rest := by
  rw [cutTags.eq_def]
  split
  · next equal => cases equal
  · next equal => exact absurd (List.cons.inj equal).1 noQuote
  · next equal => exact absurd (List.cons.inj equal).1 noBackslash
  · next equal => exact absurd (List.cons.inj equal).1 noBackslash
  · next equal => obtain ⟨rfl, rfl⟩ := List.cons.inj equal; rfl

/-- Outside of quotation marks every other character but the comma is part of the tag. -/
theorem cutTags_unquoted {character : Char} (noQuote : character ≠ '"') (noComma : character ≠ ',')
    (current rest : List Char) :
    cutTags false current (character :: rest) = cutTags false (current ++ [character]) rest := by
  by_cases backslash : character = '\\'
  · subst backslash
    cases rest <;> rfl
  · rw [cutTags_ordinary noQuote backslash, Bool.not_false, Bool.and_true,
      if_neg (by rw [decide_eq_true_eq]; exact noComma)]

theorem cutTags_append_unquoted {tag : List Char} (plain : isQuoted tag = false)
    (current rest : List Char) :
    cutTags false current (tag ++ rest) = cutTags false (current ++ tag) rest := by
  induction tag generalizing current with
  | nil => rw [List.nil_append, List.append_nil]
  | cons first others inductionHypothesis =>
    simp only [isQuoted, List.contains_cons, Bool.or_eq_false_iff, beq_eq_false_iff_ne] at plain
    obtain ⟨⟨noComma, comma⟩, noQuote, quote⟩ := plain
    have later : isQuoted others = false := by rw [isQuoted, comma, quote, Bool.or_false]
    rw [List.cons_append, cutTags_unquoted (Ne.symm noQuote) (Ne.symm noComma),
      inductionHypothesis later, List.append_assoc, List.singleton_append]

theorem cutTags_append_escaped (tag current rest : List Char) :
    cutTags true current (escapedTag tag ++ rest) = cutTags true (current ++ tag) rest := by
  induction tag generalizing current with
  | nil => rw [List.append_nil]; rfl
  | cons first others inductionHypothesis =>
    have later := inductionHypothesis (current ++ [first])
    rw [List.append_assoc, List.singleton_append] at later
    rw [escapedTag_cons, List.append_assoc, ← later]
    by_cases marked : (first = '\\' || first = '"') = true
    · rw [if_pos marked]
      rfl
    · rw [if_neg marked]
      rw [Bool.or_eq_true, decide_eq_true_eq, decide_eq_true_eq, not_or] at marked
      rw [List.singleton_append, cutTags_ordinary marked.2 marked.1, Bool.not_true, Bool.and_false,
        if_neg Bool.false_ne_true]

/-- The cut passes over a tag as it is written and gathers the tag. -/
theorem cutTags_append_tagText (tag : String) (current rest : List Char) :
    cutTags false current (tagText tag ++ rest) = cutTags false (current ++ tag.toList) rest := by
  rw [tagText_eq]
  cases quoted : isQuoted tag.toList with
  | false => exact cutTags_append_unquoted quoted current rest
  | true =>
    rw [if_pos rfl, List.append_assoc, List.cons_append]
    exact cutTags_append_escaped tag.toList current ('"' :: rest)

/-! ### The list -/

/-- The tags as they are written, a comma and a space between each two. -/
def tagList (tags : List String) : List Char :=
  [',', ' '].intercalate (tags.map tagText)

theorem cutTags_tagList (first : String) (rest : List String) (current : List Char) :
    cutTags false current (tagList (first :: rest)) =
      (current ++ first.toList) :: rest.map fun tag => ' ' :: tag.toList := by
  induction rest generalizing first current with
  | nil =>
    have written : tagList [first] = tagText first ++ [] := by
      rw [List.append_nil]
      exact List.intercalate_singleton
    rw [written, cutTags_append_tagText]
    rfl
  | cons next others inductionHypothesis =>
    have written : tagList (first :: next :: others) =
        tagText first ++ ',' :: ' ' :: tagList (next :: others) := by
      rw [tagList, List.map_cons, List.map_cons, List.intercalate_cons_cons, List.append_assoc]
      rfl
    have space : cutTags false [] (' ' :: tagList (next :: others)) =
        cutTags false [' '] (tagList (next :: others)) :=
      cutTags_unquoted (by decide) (by decide) _ _
    rw [written, cutTags_append_tagText, cutTags_ordinary (by decide) (by decide), if_pos (by decide),
      space, inductionHypothesis]
    rfl

/-- Tags that are trimmed and not empty read back from the list in which they are written. -/
theorem tagsOf_tagList {tags : List String}
    (filled : ∀ tag ∈ tags, tag.toList ≠ [] ∧ Text.trim tag.toList = tag.toList) :
    tagsOf (tagList tags) = tags.map String.toList := by
  have kept : (tags.map String.toList).filter (fun tag => !tag.isEmpty) =
      tags.map String.toList := by
    refine List.filter_eq_self.mpr fun text member => ?_
    obtain ⟨tag, inside, rfl⟩ := List.mem_map.mp member
    rw [Bool.not_eq_true', List.isEmpty_eq_false_iff]
    exact (filled tag inside).1
  cases tags with
  | nil => rfl
  | cons first rest =>
    have trimmed : ((first.toList :: rest.map fun tag => ' ' :: tag.toList).map Text.trim) =
        (first :: rest).map String.toList := by
      rw [List.map_cons, List.map_map, List.map_cons, (filled first List.mem_cons_self).2]
      refine congrArg _ (List.map_congr_left fun tag member => ?_)
      show Text.trim (' ' :: tag.toList) = tag.toList
      rw [Text.trim_cons_of_blank (by decide), (filled tag (List.mem_cons_of_mem _ member)).2]
    rw [tagsOf, cutTags_tagList, List.nil_append, trimmed, kept]

/-! ### The line of the list -/

theorem newline_not_mem_escapedTag {tag : List Char} (noFeed : '\n' ∉ tag) :
    '\n' ∉ escapedTag tag := by
  induction tag with
  | nil => exact List.not_mem_nil
  | cons first others inductionHypothesis =>
    rw [List.mem_cons, not_or] at noFeed
    rw [escapedTag_cons, List.mem_append, not_or]
    refine ⟨?_, inductionHypothesis noFeed.2⟩
    split
    · rw [List.mem_cons, List.mem_singleton, not_or]
      exact ⟨by decide, noFeed.1⟩
    · rw [List.mem_singleton]
      exact noFeed.1

/-- A tag as it is written starts and ends with something else than a blank. -/
theorem tagText_ends {tag : String} (filled : tag.toList ≠ [])
    (trimmed : Text.trim tag.toList = tag.toList) (noFeed : '\n' ∉ tag.toList) :
    tagText tag ≠ [] ∧ (∀ first ∈ (tagText tag).head?, Text.isBlank first = false) ∧
      IsSolid (tagText tag) := by
  rw [tagText_eq]
  cases quoted : isQuoted tag.toList with
  | true =>
    rw [if_pos rfl]
    refine ⟨List.cons_ne_nil _ _, fun first member => ?_, fun inside => ?_, '"', ?_, by decide⟩
    · obtain rfl := Option.some.inj member
      decide
    · rcases List.mem_cons.mp inside with same | later
      · exact absurd same (by decide)
      · rcases List.mem_append.mp later with escaped | last
        · exact newline_not_mem_escapedTag noFeed escaped
        · exact absurd (List.mem_singleton.mp last) (by decide)
    · rw [List.getLast?_concat]
  | false =>
    rw [if_neg Bool.false_ne_true]
    obtain ⟨start, stop⟩ := (Text.trim_eq_self_iff _).mp trimmed
    exact ⟨filled, start, noFeed, _, List.getLast?_eq_some_getLast filled,
      stop _ (List.getLast_mem_getLast? filled)⟩

theorem tagList_ends {tags : List String} (nonempty : tags ≠ [])
    (legible : ∀ tag ∈ tags,
      tag.toList ≠ [] ∧ Text.trim tag.toList = tag.toList ∧ '\n' ∉ tag.toList) :
    (∀ first ∈ (tagList tags).head?, Text.isBlank first = false) ∧ IsSolid (tagList tags) := by
  induction tags with
  | nil => exact absurd rfl nonempty
  | cons tag rest inductionHypothesis =>
    obtain ⟨filled, trimmed, noFeed⟩ := legible tag List.mem_cons_self
    obtain ⟨written, start, solid⟩ := tagText_ends filled trimmed noFeed
    cases rest with
    | nil =>
      rw [tagList, List.map_singleton, List.intercalate_singleton]
      exact ⟨start, solid⟩
    | cons next others =>
      have later := inductionHypothesis (List.cons_ne_nil _ _) fun other member =>
        legible other (List.mem_cons_of_mem _ member)
      have whole : tagList (tag :: next :: others) =
          tagText tag ++ ([',', ' '] ++ tagList (next :: others)) := by
        rw [tagList, List.map_cons, List.map_cons, List.intercalate_cons_cons, List.append_assoc]
        rfl
      rw [whole]
      refine ⟨?_, isSolid_append solid.1 (isSolid_append (by decide) later.2)⟩
      rw [List.head?_append_of_ne_nil _ written]
      exact start

end ApiSurface.DocBlock
