/-
This file says which texts are on one line: those whose words stand one space apart, with nothing in
front and nothing behind. Joining the words of any text gives such a text, and such texts stay so when
they are put together with one space between them or get more of a word at the end.
-/

import ApiSurface.Proofs.Text.Blank

namespace ApiSurface.Text

/-- A text that its words and single spaces make up. -/
def IsOneLine (text : List Char) : Prop :=
  joinedWords text = text

instance (text : List Char) : Decidable (IsOneLine text) :=
  inferInstanceAs (Decidable (joinedWords text = text))

theorem words_append_cons {blank : Char} (separates : isBlank blank = true) (before after : List Char) :
    words (before ++ blank :: after) = words before ++ words after := by
  rw [words, List.splitOnP_append_cons before after separates, List.filter_append, words, words]

theorem words_of_solid {word : List Char} (nonempty : word ≠ [])
    (solid : ∀ character ∈ word, isBlank character = false) : words word = [word] := by
  rw [words, List.splitOnP_eq_singleton solid]
  exact List.filter_cons_of_pos (by rw [List.isEmpty_eq_false_iff.mpr nonempty]; rfl)

theorem spaced_singleton (word : List Char) : spaced [word] = word :=
  List.intercalate_singleton

/-- Words that are joined by spaces are the words of what they are joined to. -/
theorem words_spaced {given : List (List Char)} (plain : AreWords given) :
    words (spaced given) = given := by
  induction given with
  | nil => rfl
  | cons word rest inductionHypothesis =>
    obtain ⟨nonempty, solid⟩ := plain word List.mem_cons_self
    cases rest with
    | nil =>
      rw [spaced_singleton]
      exact words_of_solid nonempty solid
    | cons next others =>
      rw [spaced_cons_cons, words_append_cons (by decide), words_of_solid nonempty solid,
        inductionHypothesis plain.of_cons, List.singleton_append]

theorem isOneLine_spaced {given : List (List Char)} (plain : AreWords given) :
    IsOneLine (spaced given) :=
  congrArg spaced (words_spaced plain)

theorem isOneLine_joinedWords (text : List Char) : IsOneLine (joinedWords text) :=
  isOneLine_spaced (areWords_words text)

/-- More of a word behind the last of joined words. -/
theorem spaced_concat_append (before : List (List Char)) (last tail : List Char) :
    spaced (before ++ [last]) ++ tail = spaced (before ++ [last ++ tail]) := by
  by_cases alone : before = []
  · rw [alone, List.nil_append, List.nil_append, spaced_singleton, spaced_singleton]
  · rw [spaced_append alone (List.cons_ne_nil _ _), spaced_append alone (List.cons_ne_nil _ _),
      spaced_singleton, spaced_singleton, List.append_assoc, List.cons_append]

namespace IsOneLine

variable {text : List Char}

theorem words_ne_nil (oneLine : IsOneLine text) (nonempty : text ≠ []) : words text ≠ [] := by
  intro none
  refine nonempty (Eq.trans oneLine.symm ?_)
  rw [joinedWords, none]
  rfl

/-- Two texts with a space between them. -/
theorem append_space (oneLine : IsOneLine text) {other : List Char} (further : IsOneLine other)
    (nonempty : text ≠ []) (otherNonempty : other ≠ []) : IsOneLine (text ++ ' ' :: other) := by
  have joined :
      spaced (words text ++ words other) = spaced (words text) ++ ' ' :: spaced (words other) :=
    spaced_append (oneLine.words_ne_nil nonempty) (further.words_ne_nil otherNonempty)
  rw [IsOneLine, joinedWords, words_append_cons (by decide)]
  exact joined.trans (congrArg₂ (fun before after => before ++ ' ' :: after) oneLine further)

/-- A text with more of a word at its end. -/
theorem append_solid (oneLine : IsOneLine text) {tail : List Char}
    (solid : ∀ character ∈ tail, isBlank character = false) : IsOneLine (text ++ tail) := by
  by_cases nothing : tail = []
  · rwa [nothing, List.append_nil]
  have plain := areWords_words text
  have whole : spaced (words text) = text := oneLine
  -- the tail is the only word, or it makes the last word longer
  rcases List.eq_nil_or_concat' (words text) with none | ⟨before, last, found⟩
  · rw [none] at whole
    rw [← whole, show spaced [] ++ tail = spaced [tail] by rw [spaced_singleton]; rfl]
    refine isOneLine_spaced fun word member => ?_
    rw [List.mem_singleton.mp member]
    exact ⟨nothing, solid⟩
  · rw [found] at plain whole
    rw [← whole, spaced_concat_append]
    refine isOneLine_spaced fun word member => ?_
    rcases List.mem_append.mp member with earlier | there
    · exact plain.of_append_left word earlier
    · obtain ⟨nonempty, lastSolid⟩ := plain last (List.mem_append_right _ List.mem_cons_self)
      rw [List.mem_singleton.mp there]
      refine ⟨List.append_ne_nil_of_left_ne_nil nonempty tail, fun character inside => ?_⟩
      rcases List.mem_append.mp inside with early | late
      · exact lastSolid character early
      · exact solid character late

end IsOneLine

end ApiSurface.Text
