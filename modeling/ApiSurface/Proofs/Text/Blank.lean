/-
This file proves the laws of trimming and of words. A trimmed text is one that neither starts nor
ends with a blank, and that is all that trimming is ever asked about: it decides which lines are
headers, where an entry starts and what a tag is. The words of a text hold no blank, so a list of
words joined by spaces is trimmed, and joining groups of words first and then the groups is the same
as joining all words at once. The second law is what makes it irrelevant where a line was broken.
-/

import ApiSurface.Text.Blank
import Mathlib.Data.List.DropRight

namespace ApiSurface.Text

/-! ### Runs -/

theorem isBlank_eq_false_of_any {text : List Char} (solid : text.any isBlank = false) :
    ∀ character ∈ text, isBlank character = false :=
  fun character member => Bool.eq_false_iff.mpr (List.any_eq_false.mp solid character member)

/-- A run of characters ends where the text goes on with a character that fails the test. -/
theorem takeWhile_append_of_stop {test : Char → Bool} {run rest : List Char}
    (runs : ∀ character ∈ run, test character = true)
    (stops : ∀ first ∈ rest.head?, test first = false) : (run ++ rest).takeWhile test = run := by
  rw [List.takeWhile_append_of_pos runs]
  cases rest with
  | nil => exact List.append_nil run
  | cons first others =>
    rw [List.takeWhile_cons, stops first rfl, if_neg Bool.false_ne_true, List.append_nil]

theorem dropWhile_append_of_stop {test : Char → Bool} {run rest : List Char}
    (runs : ∀ character ∈ run, test character = true)
    (stops : ∀ first ∈ rest.head?, test first = false) : (run ++ rest).dropWhile test = rest := by
  rw [List.dropWhile_append_of_pos runs]
  cases rest with
  | nil => rfl
  | cons first others => rw [List.dropWhile_cons, stops first rfl, if_neg Bool.false_ne_true]

/-! ### Joining -/

section

variable {Element : Type} {separator element : Element} {pieces : List (List Element)}

/-- Joining adds nothing but the separator. -/
theorem of_mem_intercalate (member : element ∈ [separator].intercalate pieces) :
    element = separator ∨ ∃ piece ∈ pieces, element ∈ piece := by
  induction pieces with
  | nil => exact absurd member List.not_mem_nil
  | cons piece rest inductionHypothesis =>
    cases rest with
    | nil =>
      rw [List.intercalate_singleton] at member
      exact .inr ⟨piece, List.mem_cons_self, member⟩
    | cons next others =>
      rw [List.intercalate_cons_cons, List.append_assoc] at member
      rcases List.mem_append.mp member with here | later
      · exact .inr ⟨piece, List.mem_cons_self, here⟩
      · rcases List.mem_cons.mp later with between | further
        · exact .inl between
        · exact (inductionHypothesis further).imp_right fun ⟨other, inside, there⟩ =>
            ⟨other, List.mem_cons_of_mem _ inside, there⟩

theorem mem_intercalate {piece : List Element} (inside : piece ∈ pieces) (member : element ∈ piece) :
    element ∈ [separator].intercalate pieces := by
  induction pieces with
  | nil => exact absurd inside List.not_mem_nil
  | cons first rest inductionHypothesis =>
    cases rest with
    | nil =>
      rw [List.intercalate_singleton, ← List.mem_singleton.mp inside]
      exact member
    | cons next others =>
      rw [List.intercalate_cons_cons]
      rcases List.mem_cons.mp inside with rfl | further
      · exact List.mem_append_left _ (List.mem_append_left _ member)
      · exact List.mem_append_right _ (inductionHypothesis further)

end

/-! ### Trimming -/

theorem dropEndWhile_eq_rdropWhile (test : Char → Bool) (text : List Char) :
    dropEndWhile test text = text.rdropWhile test := by
  induction text with
  | nil => rfl
  | cons first rest inductionHypothesis =>
    have split : (first :: rest).rdropWhile test =
        if (rest.rdropWhile test).isEmpty then (if test first then [] else [first])
        else first :: rest.rdropWhile test := by
      simp only [List.rdropWhile, List.reverse_cons, List.dropWhile_append, List.isEmpty_reverse]
      split
      · by_cases passes : test first <;> simp [passes]
      · rw [List.reverse_append, List.reverse_singleton, List.singleton_append]
    rw [split, ← inductionHypothesis, dropEndWhile]
    cases dropEndWhile test rest <;> rfl

theorem trimEnd_eq_self_iff (text : List Char) :
    trimEnd text = text ↔ ∀ last ∈ text.getLast?, isBlank last = false := by
  rw [trimEnd, dropEndWhile_eq_rdropWhile, List.rdropWhile_eq_self_iff]
  constructor
  · intro solid last member
    obtain ⟨nonempty, rfl⟩ := List.mem_getLast?_eq_getLast member
    exact Bool.eq_false_iff.mpr (solid nonempty)
  · intro solid nonempty
    rw [solid _ (List.getLast_mem_getLast? nonempty)]
    exact Bool.false_ne_true

theorem trimStart_cons_of_not_blank {first : Char} (solid : isBlank first = false)
    (rest : List Char) : trimStart (first :: rest) = first :: rest :=
  List.dropWhile_cons_of_neg (by rw [solid]; exact Bool.false_ne_true)

theorem trimStart_cons_of_blank {first : Char} (blank : isBlank first = true)
    (rest : List Char) : trimStart (first :: rest) = trimStart rest :=
  List.dropWhile_cons_of_pos blank

theorem trimEnd_cons_of_not_blank {first : Char} (solid : isBlank first = false)
    (rest : List Char) : trimEnd (first :: rest) = first :: trimEnd rest := by
  unfold trimEnd
  rw [dropEndWhile, solid]
  cases dropEndWhile isBlank rest <;> rfl

theorem length_trimStart_le (text : List Char) : (trimStart text).length ≤ text.length :=
  (List.dropWhile_suffix isBlank).length_le

theorem length_trimEnd_le (text : List Char) : (trimEnd text).length ≤ text.length := by
  rw [trimEnd, dropEndWhile_eq_rdropWhile]
  exact (List.rdropWhile_prefix isBlank text).length_le

theorem trimStart_eq_self_iff (text : List Char) :
    trimStart text = text ↔ ∀ first ∈ text.head?, isBlank first = false := by
  cases text with
  | nil => exact ⟨fun _ _ member => absurd member (Option.not_mem_none _), fun _ => rfl⟩
  | cons first rest =>
    constructor
    · intro same character member
      obtain rfl := Option.some.inj member
      refine Bool.eq_false_iff.mpr fun blank => ?_
      have shorter := length_trimStart_le rest
      rw [← trimStart_cons_of_blank blank, same, List.length_cons] at shorter
      exact absurd shorter (Nat.not_succ_le_self _)
    · intro solid
      exact trimStart_cons_of_not_blank (solid first rfl) rest

/-- What starts with something else than a blank still does with more behind it. -/
theorem trimStart_append_of_trimmed {text : List Char} (trimmed : trimStart text = text)
    (filled : text ≠ []) (rest : List Char) : trimStart (text ++ rest) = text ++ rest := by
  rw [trimStart_eq_self_iff] at trimmed ⊢
  rwa [List.head?_append_of_ne_nil _ filled]

/-- A text is trimmed exactly when both of its ends are. -/
theorem trim_eq_self_iff_and (text : List Char) :
    trim text = text ↔ trimStart text = text ∧ trimEnd text = text := by
  constructor
  · intro same
    have startLength : text.length ≤ (trimStart text).length := by
      conv_lhs => rw [← same]
      exact length_trimEnd_le _
    have start : trimStart text = text :=
      (List.dropWhile_suffix isBlank).eq_of_length
        (Nat.le_antisymm (length_trimStart_le text) startLength)
    exact ⟨start, by rw [← start, ← trim, same, start]⟩
  · rintro ⟨start, stop⟩
    rw [trim, start, stop]

/-- A text is trimmed exactly when it neither starts nor ends with a blank. -/
theorem trim_eq_self_iff (text : List Char) :
    trim text = text ↔
      (∀ first ∈ text.head?, isBlank first = false) ∧
        ∀ last ∈ text.getLast?, isBlank last = false := by
  rw [← trimStart_eq_self_iff, ← trimEnd_eq_self_iff, trim_eq_self_iff_and]

/-- The end of a text that does not end with a blank does not either. -/
theorem trimEnd_of_suffix {text tail : List Char} (trimmed : trimEnd text = text)
    (suffix : tail <:+ text) : trimEnd tail = tail := by
  obtain ⟨before, rfl⟩ := suffix
  rw [trimEnd_eq_self_iff] at trimmed ⊢
  intro last member
  refine trimmed last ?_
  rw [List.getLast?_append, Option.mem_def.mp member]
  rfl

/-- Trimming the start of a text leaves its end alone. -/
theorem trimEnd_trimStart {text : List Char} (trimmed : trimEnd text = text) :
    trimEnd (trimStart text) = trimStart text :=
  trimEnd_of_suffix trimmed (List.dropWhile_suffix isBlank)

theorem trimStart_append_of_blank {blanks : List Char}
    (blank : ∀ character ∈ blanks, isBlank character = true) (text : List Char) :
    trimStart (blanks ++ text) = trimStart text :=
  List.dropWhile_append_of_pos blank

/-- Blanks in front of a text are trimmed away. -/
theorem trim_append_of_blank {blanks : List Char}
    (blank : ∀ character ∈ blanks, isBlank character = true) (text : List Char) :
    trim (blanks ++ text) = trim text := by
  rw [trim, trimStart_append_of_blank blank, trim]

theorem trim_cons_of_blank {first : Char} (blank : isBlank first = true) (rest : List Char) :
    trim (first :: rest) = trim rest := by
  rw [trim, trimStart_cons_of_blank blank, trim]

theorem trim_cons_of_not_blank {first : Char} (solid : isBlank first = false)
    (rest : List Char) : trim (first :: rest) = first :: trimEnd rest := by
  rw [trim, trimStart_cons_of_not_blank solid, trimEnd_cons_of_not_blank solid]

theorem trimEnd_append (first second : List Char) :
    trimEnd (first ++ second) =
      if (trimEnd second).isEmpty then trimEnd first else first ++ trimEnd second := by
  simp only [trimEnd, dropEndWhile_eq_rdropWhile, List.rdropWhile, List.reverse_append,
    List.dropWhile_append, List.isEmpty_reverse]
  split
  · rfl
  · rw [List.reverse_append, List.reverse_reverse]

theorem trimEnd_concat_of_blank {last : Char} (blank : isBlank last = true) (text : List Char) :
    trimEnd (text ++ [last]) = trimEnd text := by
  unfold trimEnd
  rw [dropEndWhile_eq_rdropWhile, dropEndWhile_eq_rdropWhile,
    List.rdropWhile_concat_pos isBlank text last blank]

/-- Blanks behind a text are trimmed away. -/
theorem trim_append_blanks (text : List Char) {blanks : List Char}
    (blank : ∀ character ∈ blanks, isBlank character = true) : trim (text ++ blanks) = trim text := by
  have none : trimEnd blanks = [] := by
    rw [trimEnd, dropEndWhile_eq_rdropWhile, List.rdropWhile_eq_nil_iff]
    exact blank
  rw [trim, trim, trimStart, List.dropWhile_append]
  split
  · next empty =>
    have start : trimStart text = [] := List.isEmpty_iff.mp empty
    rw [start, List.dropWhile_eq_nil_iff.mpr blank]
  · rw [trimEnd_append, none]
    rfl

theorem trim_concat_of_blank {last : Char} (blank : isBlank last = true) (text : List Char) :
    trim (text ++ [last]) = trim text :=
  trim_append_blanks text (List.forall_mem_singleton.mpr blank)

/-- A text ends with its last character that is not blank. -/
theorem trim_append_cons_blanks (text : List Char) {last : Char} (solid : isBlank last = false)
    {blanks : List Char} (blank : ∀ character ∈ blanks, isBlank character = true) :
    trim (text ++ last :: blanks) = trimStart text ++ [last] := by
  have start : trimStart (text ++ [last]) = trimStart text ++ [last] := by
    rw [trimStart, List.dropWhile_append]
    split
    · next empty =>
      have none : trimStart text = [] := List.isEmpty_iff.mp empty
      rw [none]
      exact trimStart_cons_of_not_blank solid []
    · rfl
  have stop : trimEnd (trimStart text ++ [last]) = trimStart text ++ [last] := by
    rw [trimEnd_eq_self_iff, List.getLast?_concat]
    intro character member
    obtain rfl := Option.some.inj member
    exact solid
  rw [List.append_cons, trim_append_blanks _ blank, trim, start, stop]

theorem trimEnd_trimEnd (text : List Char) : trimEnd (trimEnd text) = trimEnd text := by
  rw [trimEnd, trimEnd, dropEndWhile_eq_rdropWhile, dropEndWhile_eq_rdropWhile,
    List.rdropWhile_idempotent]

/-- Trimming a second time changes nothing. -/
theorem trim_trim (text : List Char) : trim (trim text) = trim text := by
  rw [trim, trim]
  cases start : trimStart text with
  | nil => rfl
  | cons first rest =>
    have solid : isBlank first = false := by
      have stop := List.head?_dropWhile_not isBlank text
      rwa [show text.dropWhile isBlank = first :: rest from start] at stop
    rw [trimEnd_cons_of_not_blank solid, trimStart_cons_of_not_blank solid,
      trimEnd_cons_of_not_blank solid, trimEnd_trimEnd]

theorem mem_of_mem_trimStart {text : List Char} {character : Char}
    (member : character ∈ trimStart text) : character ∈ text :=
  (List.dropWhile_suffix _).mem member

theorem mem_of_mem_trimEnd {text : List Char} {character : Char}
    (member : character ∈ trimEnd text) : character ∈ text := by
  rw [trimEnd, dropEndWhile_eq_rdropWhile] at member
  exact (List.rdropWhile_prefix _ _).mem member

theorem mem_of_mem_trim {text : List Char} {character : Char} (member : character ∈ trim text) :
    character ∈ text :=
  mem_of_mem_trimStart (mem_of_mem_trimEnd member)

/-- What is taken away at the ends of a text passes the test by which it is taken away. -/
theorem exists_eq_append_rdropWhile (test : Char → Bool) (text : List Char) :
    ∃ before behind, text = before ++ (text.dropWhile test).rdropWhile test ++ behind ∧
      (∀ character ∈ before, test character = true) ∧ ∀ character ∈ behind, test character = true := by
  refine ⟨text.takeWhile test, (text.dropWhile test).rtakeWhile test, ?_,
    fun _ => List.mem_takeWhile_imp, fun _ => List.mem_rtakeWhile_imp⟩
  rw [List.append_assoc, List.rdropWhile_append_rtakeWhile, List.takeWhile_append_dropWhile]

theorem exists_eq_append_trim (text : List Char) :
    ∃ before behind, text = before ++ trim text ++ behind ∧
      (∀ character ∈ before, isBlank character = true) ∧
        ∀ character ∈ behind, isBlank character = true := by
  rw [trim, trimStart, trimEnd, dropEndWhile_eq_rdropWhile]
  exact exists_eq_append_rdropWhile isBlank text

/-- Trimming leaves nothing exactly when there are only blanks. -/
theorem trim_eq_nil_iff (text : List Char) :
    trim text = [] ↔ ∀ character ∈ text, isBlank character = true := by
  rw [trim, trimEnd, dropEndWhile_eq_rdropWhile, List.rdropWhile_eq_nil_iff]
  constructor
  · intro blank character member
    rw [← List.takeWhile_append_dropWhile (p := isBlank) (l := text)] at member
    rcases List.mem_append.mp member with taken | dropped
    · exact List.mem_takeWhile_imp taken
    · exact blank character dropped
  · exact fun blank character member =>
      blank character ((List.dropWhile_suffix isBlank).mem member)

/-! ### Words -/

/-- A list of words: none is empty and none holds a blank. -/
def AreWords (words : List (List Char)) : Prop :=
  ∀ word ∈ words, word ≠ [] ∧ ∀ character ∈ word, isBlank character = false

/-- Cutting a list takes away only the elements at which it is cut. -/
theorem flatten_splitOnP {Element : Type} (test : Element → Bool) (whole : List Element) :
    (whole.splitOnP test).flatten = whole.filter fun element => !test element := by
  induction whole with
  | nil => rfl
  | cons first rest inductionHypothesis =>
    rw [List.splitOnP_cons_eq_if_modifyHead]
    split
    · next cuts => simp [cuts, inductionHypothesis]
    · next keeps =>
      obtain ⟨start, pieces, found⟩ := List.exists_cons_of_ne_nil (List.splitOnP_ne_nil test rest)
      rw [found] at inductionHypothesis ⊢
      simpa [keeps] using inductionHypothesis

/-- A piece of a cut list holds some of its elements, and none of those at which it was cut. -/
theorem mem_of_mem_splitOnP {Element : Type} {test : Element → Bool} {whole piece : List Element}
    (member : piece ∈ whole.splitOnP test) :
    ∀ element ∈ piece, element ∈ whole ∧ test element = false := by
  intro element inside
  have kept := List.mem_flatten_of_mem member inside
  rw [flatten_splitOnP] at kept
  simpa using kept

theorem not_of_mem_splitOnP {test : Char → Bool} {text piece : List Char}
    (member : piece ∈ text.splitOnP test) : ∀ character ∈ piece, test character = false :=
  fun character inside => (mem_of_mem_splitOnP member character inside).2

theorem newline_notMem_of_mem_splitOn {text line : List Char} (member : line ∈ text.splitOn '\n') :
    '\n' ∉ line := by
  rw [List.splitOn_eq_splitOnP] at member
  exact fun feed => absurd (not_of_mem_splitOnP member '\n' feed) (by decide)

theorem areWords_words (text : List Char) : AreWords (words text) := by
  intro word member
  obtain ⟨piece, nonempty⟩ := List.mem_filter.mp member
  refine ⟨?_, not_of_mem_splitOnP piece⟩
  rintro rfl
  exact absurd nonempty (by decide)

/-- A text without words is one of blanks only. -/
theorem words_eq_nil_iff {text : List Char} :
    words text = [] ↔ ∀ character ∈ text, isBlank character = true := by
  induction text with
  | nil => exact ⟨fun _ _ member => absurd member List.not_mem_nil, fun _ => rfl⟩
  | cons first rest inductionHypothesis =>
    rw [words, List.splitOnP_cons_eq_if_modifyHead, List.forall_mem_cons]
    split
    · next blank =>
      rw [List.filter_cons_of_neg (by decide), ← words, inductionHypothesis]
      exact (and_iff_right blank).symm
    · next solid =>
      obtain ⟨start, pieces, found⟩ := List.exists_cons_of_ne_nil (List.splitOnP_ne_nil isBlank rest)
      rw [found, List.modifyHead_cons, List.filter_cons_of_pos (by rfl)]
      exact ⟨fun none => absurd none (List.cons_ne_nil _ _), fun blank => absurd blank.1 solid⟩

theorem AreWords.of_append_left {first second : List (List Char)}
    (plain : AreWords (first ++ second)) : AreWords first :=
  fun word member => plain word (List.mem_append_left _ member)

theorem AreWords.of_append_right {first second : List (List Char)}
    (plain : AreWords (first ++ second)) : AreWords second :=
  fun word member => plain word (List.mem_append_right _ member)

theorem AreWords.of_cons {word : List Char} {rest : List (List Char)}
    (plain : AreWords (word :: rest)) : AreWords rest :=
  fun other member => plain other (List.mem_cons_of_mem _ member)

/-- Words with a space between each two. -/
def spaced (words : List (List Char)) : List Char :=
  [' '].intercalate words

theorem spaced_cons_cons (first second : List Char) (rest : List (List Char)) :
    spaced (first :: second :: rest) = first ++ ' ' :: spaced (second :: rest) := by
  rw [spaced, List.intercalate_cons_cons, List.append_assoc, List.singleton_append, spaced]

theorem spaced_append {first second : List (List Char)} (leftNonempty : first ≠ [])
    (rightNonempty : second ≠ []) :
    spaced (first ++ second) = spaced first ++ ' ' :: spaced second := by
  induction first with
  | nil => exact absurd rfl leftNonempty
  | cons word rest inductionHypothesis =>
    cases rest with
    | nil =>
      obtain ⟨other, others, rfl⟩ := List.exists_cons_of_ne_nil rightNonempty
      rw [List.singleton_append, spaced_cons_cons, spaced, spaced, List.intercalate_singleton]
    | cons next rest =>
      rw [List.cons_append, List.cons_append, spaced_cons_cons, spaced_cons_cons,
        ← List.cons_append, inductionHypothesis (List.cons_ne_nil _ _), List.append_assoc,
        List.cons_append]

theorem spaced_ne_nil_of_filled {texts : List (List Char)} (filled : ∀ text ∈ texts, text ≠ [])
    (nonempty : texts ≠ []) : spaced texts ≠ [] := by
  cases texts with
  | nil => exact absurd rfl nonempty
  | cons first rest =>
    have solid := filled first List.mem_cons_self
    cases rest with
    | nil => rwa [spaced, List.intercalate_singleton]
    | cons next rest =>
      rw [spaced_cons_cons]
      exact fun empty => solid (List.append_eq_nil_iff.mp empty).1

/-- Texts that are trimmed and not empty are trimmed with spaces between them. -/
theorem trim_spaced_of_trimmed {texts : List (List Char)}
    (each : ∀ text ∈ texts, text ≠ [] ∧ trim text = text) : trim (spaced texts) = spaced texts := by
  induction texts with
  | nil => rfl
  | cons text rest inductionHypothesis =>
    obtain ⟨nonempty, trimmed⟩ := each text List.mem_cons_self
    cases rest with
    | nil => rwa [spaced, List.intercalate_singleton]
    | cons next rest =>
      have others : ∀ other ∈ next :: rest, other ≠ [] ∧ trim other = other :=
        fun other member => each other (List.mem_cons_of_mem _ member)
      have filled := spaced_ne_nil_of_filled (fun other member => (others other member).1)
        (List.cons_ne_nil next rest)
      have later := inductionHypothesis others
      rw [trim_eq_self_iff] at trimmed later
      rw [spaced_cons_cons, trim_eq_self_iff, List.head?_append_of_ne_nil _ nonempty,
        List.getLast?_append_of_ne_nil _ (List.cons_ne_nil _ _),
        List.getLast?_cons_of_ne_nil filled]
      exact ⟨trimmed.1, later.2⟩

section

variable {words : List (List Char)} (plain : AreWords words)

include plain

theorem spaced_ne_nil (nonempty : words ≠ []) : spaced words ≠ [] :=
  spaced_ne_nil_of_filled (fun word member => (plain word member).1) nonempty

/-- Words with spaces between them are trimmed. -/
theorem trim_spaced : trim (spaced words) = spaced words := by
  refine trim_spaced_of_trimmed fun word member => ⟨(plain word member).1, ?_⟩
  exact (trim_eq_self_iff word).mpr
    ⟨fun first found => (plain word member).2 first (List.mem_of_head? found),
      fun last found => (plain word member).2 last (List.mem_of_getLast? found)⟩

theorem head?_spaced_not_blank : ∀ first ∈ (spaced words).head?, isBlank first = false :=
  ((trim_eq_self_iff _).mp (trim_spaced plain)).1

theorem getLast?_spaced_not_blank : ∀ last ∈ (spaced words).getLast?, isBlank last = false :=
  ((trim_eq_self_iff _).mp (trim_spaced plain)).2

end

theorem not_mem_spaced {words : List (List Char)} (plain : AreWords words) {character : Char}
    (blank : isBlank character = true) (other : character ≠ ' ') : character ∉ spaced words := by
  intro member
  obtain ⟨word, inside, there⟩ := (of_mem_intercalate member).resolve_left other
  rw [(plain word inside).2 character there] at blank
  exact Bool.false_ne_true blank

/-- Joining groups of words and then the groups is joining all the words. -/
theorem spaced_map_spaced {groups : List (List (List Char))}
    (nonempty : ∀ group ∈ groups, group ≠ []) :
    spaced (groups.map spaced) = spaced groups.flatten := by
  induction groups with
  | nil => rfl
  | cons group rest inductionHypothesis =>
    have rejoined := inductionHypothesis fun other member =>
      nonempty other (List.mem_cons_of_mem _ member)
    cases rest with
    | nil =>
      rw [List.map_singleton, List.flatten_singleton]
      exact List.intercalate_singleton
    | cons next rest =>
      have later : (next :: rest).flatten ≠ [] := fun empty =>
        nonempty next (List.mem_cons_of_mem _ List.mem_cons_self)
          (List.flatten_eq_nil_iff.mp empty next List.mem_cons_self)
      rw [List.flatten_cons, spaced_append (nonempty group List.mem_cons_self) later, ← rejoined]
      exact spaced_cons_cons _ _ _

end ApiSurface.Text
