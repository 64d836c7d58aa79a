/-
This file proves how an entry is laid out on lines. Its words are dealt out in order: some of them
stand behind the head, and each further line is the deeper indentation and at least one word. A line
takes each word that fits, and one that has none yet takes any; so a line is too long only for its
single word, and the next line starts with a word that had no place. Only one way to deal the words
out has these properties: the first word either fits or does not, and what is left is dealt out in
the same way. Where the breaks fall matters to nothing that reads an entry, though, because no line
holds a line feed or ends with a blank, and a wrapped entry is taken apart into the same lines again.
-/

import ApiSurface.DocBlock.Printer
import ApiSurface.Proofs.Text.Blank
import ApiSurface.Proofs.Text.Line

namespace ApiSurface.DocBlock

open Text (AreWords spaced)

/-! ### Layout -/

/-- A further line of an entry. -/
def continuationLine (words : List (List Char)) : List Char :=
  continuationIndent ++ spaced words

/-- Words behind something that is not a space: each has one space in front. -/
def trailing (words : List (List Char)) : List Char :=
  words.flatMap fun word => ' ' :: word

theorem trailing_nil : trailing [] = [] := rfl

theorem trailing_cons (word : List Char) (rest : List (List Char)) :
    trailing (word :: rest) = ' ' :: word ++ trailing rest :=
  List.flatMap_cons

theorem spaced_cons (word : List Char) (rest : List (List Char)) :
    spaced (word :: rest) = word ++ trailing rest := by
  induction rest generalizing word with
  | nil =>
    rw [trailing_nil, List.append_nil]
    exact List.intercalate_singleton
  | cons next others inductionHypothesis =>
    rw [Text.spaced_cons_cons, inductionHypothesis, trailing_cons, List.cons_append]

theorem trailing_of_ne_nil {words : List (List Char)} (nonempty : words ≠ []) :
    trailing words = ' ' :: spaced words := by
  obtain ⟨word, rest, rfl⟩ := List.exists_cons_of_ne_nil nonempty
  rw [spaced_cons, trailing_cons, List.cons_append]

theorem separator_of_not_space {line : List Char} (solid : line.getLast? ≠ some ' ') :
    separator line = [' '] :=
  if_neg solid

theorem newline_not_mem_separator (line : List Char) : '\n' ∉ separator line := by
  unfold separator
  split <;> decide

/-- What stands behind the head on the first line of an entry. -/
def behindHead (head : List Char) (words : List (List Char)) : List Char :=
  if words.isEmpty then [] else separator head ++ spaced words

theorem behindHead_of_not_space {head : List Char} (solid : head.getLast? ≠ some ' ')
    (words : List (List Char)) : behindHead head words = trailing words := by
  by_cases none : words = []
  · rw [none]
    rfl
  · rw [behindHead, List.isEmpty_eq_false_iff.mpr none, if_neg Bool.false_ne_true,
      separator_of_not_space solid, trailing_of_ne_nil none, List.singleton_append]

/-! ### Rows -/

/-- One line of an entry: how it starts, and the words behind that. -/
structure Row where
  /-- The head of the entry or the deeper indentation. -/
  start : List Char
  /-- The words. -/
  words : List (List Char)

namespace Row

/-- The text of a line. -/
def line (row : Row) : List Char :=
  row.start ++ behindHead row.start row.words

/-- A line with one more word. -/
def add (row : Row) (word : List Char) : Row :=
  ⟨row.start, row.words ++ [word]⟩

theorem line_append {words : List (List Char)} (filled : words ≠ []) (start : List Char)
    (more : List (List Char)) :
    line ⟨start, words ++ more⟩ = line ⟨start, words⟩ ++ trailing more := by
  obtain ⟨first, rest, rfl⟩ := List.exists_cons_of_ne_nil filled
  simp [line, behindHead, spaced_cons, trailing]

theorem getLast?_line_ne {row : Row} (plain : AreWords row.words) (filled : row.words ≠ []) :
    row.line.getLast? ≠ some ' ' := by
  have solid := Text.spaced_ne_nil plain filled
  intro space
  rw [line, behindHead, List.isEmpty_eq_false_iff.mpr filled, if_neg Bool.false_ne_true,
    ← List.append_assoc, List.getLast?_append_of_ne_nil _ solid] at space
  exact absurd (Text.getLast?_spaced_not_blank plain _ space) (by decide)

/-- One more word stands behind a space, unless the line ends with one. -/
theorem line_add {row : Row} (plain : AreWords row.words) (word : List Char) :
    (row.add word).line = row.line ++ separator row.line ++ word := by
  obtain ⟨start, words⟩ := row
  by_cases none : words = []
  · simp [add, line, none, behindHead, Text.spaced]
  · rw [add, line_append none, separator_of_not_space (getLast?_line_ne plain none), trailing_cons,
      trailing_nil]
    simp

end Row

/-- The lines over which words are dealt out, behind the words that the first line has. -/
def rowsFrom (row : Row) : List (List Char) → List Row
  | [] => [row]
  | word :: rest =>
    if row.words = [] ∨ Text.byteLength (row.add word).line ≤ wrapWidth then
      rowsFrom (row.add word) rest
    else row :: rowsFrom ⟨continuationIndent, [word]⟩ rest

theorem separator_continuationIndent : separator continuationIndent = [] := by
  decide

theorem line_continuation {words : List (List Char)} (filled : words ≠ []) :
    Row.line ⟨continuationIndent, words⟩ = continuationLine words := by
  rw [Row.line, behindHead, List.isEmpty_eq_false_iff.mpr filled, if_neg Bool.false_ne_true,
    separator_continuationIndent, List.nil_append, continuationLine]

theorem wrapWords_eq_map_rowsFrom {row : Row} {words : List (List Char)}
    (plain : AreWords (row.words ++ words)) {hasWord : Bool}
    (started : hasWord = true ↔ row.words ≠ []) :
    wrapWords row.line hasWord words = (rowsFrom row words).map Row.line := by
  induction words generalizing row hasWord with
  | nil => rfl
  | cons word rest inductionHypothesis =>
    have moved : row.words ++ word :: rest = (row.add word).words ++ rest := by simp [Row.add]
    have later := @inductionHypothesis (row.add word) (moved ▸ plain) true (by simp [Row.add])
    have below := @inductionHypothesis ⟨continuationIndent, [word]⟩ plain.of_append_right true (by simp)
    have goesOn : (!hasWord || decide (Text.byteLength (row.add word).line ≤ wrapWidth)) = true ↔
        row.words = [] ∨ Text.byteLength (row.add word).line ≤ wrapWidth := by
      rw [Bool.or_eq_true, Bool.not_eq_true', ← Bool.not_eq_true, started, not_ne_iff,
        decide_eq_true_iff]
    rw [line_continuation (List.cons_ne_nil _ _), continuationLine, Text.spaced,
      List.intercalate_singleton] at below
    rw [wrapWords, rowsFrom, ← Row.line_add plain.of_append_left, later, below, List.map_cons.symm]
    simp only [goesOn]
    exact (apply_ite (List.map Row.line) _ _ _).symm

/-- How words are dealt out over lines, of which the first one has begun: its words stay, each further line
is indented and has a word, a line that is too long has no second word, and the first word of each further
line would have made the line before it too long. -/
structure IsWrapped (begun : Row) (words : List (List Char)) (rows : List Row) : Prop where
  /-- The first line goes on as it has begun, and a first word stands on it; each further line is indented
  and has a word. -/
  starts : ∃ taken rest, rows = ⟨begun.start, begun.words ++ taken⟩ :: rest ∧
    (begun.words ++ taken = [] → rest = []) ∧
    ∀ row ∈ rest, row.start = continuationIndent ∧ row.words ≠ []
  /-- All words stand on the lines, in their order. -/
  dealt : rows.flatMap Row.words = begun.words ++ words
  /-- A line that is too long has no second word. -/
  narrow : ∀ row ∈ rows, wrapWidth < Text.byteLength row.line → row.words.length ≤ 1
  /-- The first word of a further line does not fit on the line before it. -/
  full : rows.IsChain fun row next => ∀ word ∈ next.words.head?,
    wrapWidth < Text.byteLength (row.line ++ separator row.line ++ word)

section

variable {begun : Row} {rows : List Row}

theorem isWrapped_nil_iff (narrow : wrapWidth < Text.byteLength begun.line → begun.words.length ≤ 1) :
    IsWrapped begun [] rows ↔ rows = [begun] := by
  constructor
  · rintro ⟨⟨taken, rest, rfl, -, indented⟩, dealt, -, -⟩
    rw [List.flatMap_cons, List.append_assoc, List.append_cancel_left_eq, List.append_eq_nil_iff] at dealt
    cases rest with
    | nil => rw [dealt.1, List.append_nil]
    | cons next others =>
      exact absurd (List.flatMap_eq_nil_iff.mp dealt.2 next List.mem_cons_self)
        (indented next List.mem_cons_self).2
  · rintro rfl
    refine ⟨⟨[], [], by rw [List.append_nil], fun _ => rfl, List.forall_mem_nil _⟩,
      List.flatMap_singleton _ _ |>.trans (List.append_nil _).symm, ?_, List.IsChain.singleton _⟩
    exact fun row member => List.mem_singleton.mp member ▸ narrow

variable {word : List Char} {others : List (List Char)}

/-- A word that fits, or that is the first one, goes on the line that has begun. -/
theorem isWrapped_cons_of_fits (plain : AreWords (begun.words ++ word :: others))
    (fits : begun.words = [] ∨ Text.byteLength (begun.add word).line ≤ wrapWidth) :
    IsWrapped begun (word :: others) rows ↔ IsWrapped (begun.add word) others rows := by
  have moved (rest : List (List Char)) :
      begun.words ++ word :: rest = (begun.add word).words ++ rest := by simp [Row.add]
  constructor
  · rintro ⟨⟨taken, rest, rfl, together, indented⟩, dealt, narrow, full⟩
    rw [List.flatMap_cons, List.append_assoc, List.append_cancel_left_eq] at dealt
    cases taken with
    | cons first taken =>
      rw [List.cons_append, List.cons.injEq] at dealt
      obtain ⟨rfl, dealt⟩ := dealt
      refine ⟨⟨taken, rest, by rw [moved]; rfl, moved taken ▸ together, indented⟩, ?_, narrow, full⟩
      rw [List.flatMap_cons, moved, List.append_assoc, dealt]
    | nil =>
      -- the word is the first one of a further line, and so it did not fit
      exfalso
      rw [List.append_nil] at together full
      cases rest with
      | nil => exact List.cons_ne_nil _ _ dealt.symm
      | cons next rest =>
        obtain ⟨first, more, found⟩ :=
          List.exists_cons_of_ne_nil (indented next List.mem_cons_self).2
        rw [List.flatMap_cons, found] at dealt
        obtain ⟨rfl, -⟩ := List.cons.inj dealt
        have long := (List.isChain_cons_cons.mp full).1 first (by rw [found]; rfl)
        rcases fits with none | short
        · exact List.cons_ne_nil _ _ (together none)
        · rw [Row.line_add plain.of_append_left] at short
          exact Nat.not_lt.mpr short long
  · rintro ⟨⟨taken, rest, same, -, indented⟩, dealt, narrow, full⟩
    refine ⟨⟨word :: taken, rest, ?_, ?_, indented⟩, dealt.trans (moved others).symm, narrow, full⟩
    · rw [same, moved]
      rfl
    · exact fun none => absurd (List.append_eq_nil_iff.mp none).2 (List.cons_ne_nil _ _)

/-- A word that does not fit starts a further line. -/
theorem isWrapped_cons_of_breaks (plain : AreWords (begun.words ++ word :: others))
    (narrow : wrapWidth < Text.byteLength begun.line → begun.words.length ≤ 1)
    (filled : begun.words ≠ []) (long : wrapWidth < Text.byteLength (begun.add word).line) :
    IsWrapped begun (word :: others) rows ↔
      ∃ below, rows = begun :: below ∧ IsWrapped ⟨continuationIndent, [word]⟩ others below := by
  constructor
  · rintro ⟨⟨taken, rest, rfl, -, indented⟩, dealt, each, full⟩
    rw [List.flatMap_cons, List.append_assoc, List.append_cancel_left_eq] at dealt
    cases taken with
    | cons first taken =>
      -- the line would be too long and have a second word
      exfalso
      obtain ⟨rfl, -⟩ := List.cons.inj dealt
      have moved : begun.words ++ first :: taken = (begun.words ++ [first]) ++ taken := by simp
      have longer : wrapWidth < Text.byteLength (Row.line ⟨begun.start, begun.words ++ first :: taken⟩) := by
        rw [moved, Row.line_append (List.append_ne_nil_of_left_ne_nil filled _), Text.byteLength_append]
        exact Nat.lt_of_lt_of_le long (Nat.le_add_right _ _)
      have single := each _ List.mem_cons_self longer
      have some := List.length_pos_of_ne_nil filled
      rw [List.length_append, List.length_cons] at single
      omega
    | nil =>
      rw [List.append_nil] at full ⊢
      refine ⟨rest, rfl, ?_⟩
      cases rest with
      | nil => exact absurd dealt (List.cons_ne_nil _ _).symm
      | cons next rest =>
        obtain ⟨start, words⟩ := next
        obtain ⟨⟨rfl, nonempty⟩, below⟩ := List.forall_mem_cons.mp indented
        obtain ⟨first, more, rfl⟩ := List.exists_cons_of_ne_nil nonempty
        obtain ⟨rfl, -⟩ := List.cons.inj dealt
        exact ⟨⟨more, rest, rfl, fun none => absurd none (List.cons_ne_nil _ _), below⟩, dealt,
          fun row member => each row (List.mem_cons_of_mem _ member), (List.isChain_cons_cons.mp full).2⟩
  · rintro ⟨below, rfl, ⟨taken, rest, rfl, -, indented⟩, dealt, each, full⟩
    refine ⟨⟨[], _, by rw [List.append_nil], fun none => absurd (List.append_eq_nil_iff.mp none).1 filled,
      List.forall_mem_cons.mpr ⟨⟨rfl, List.cons_ne_nil _ _⟩, indented⟩⟩, ?_,
      List.forall_mem_cons.mpr ⟨narrow, each⟩, List.isChain_cons_cons.mpr ⟨fun first found => ?_, full⟩⟩
    · rw [List.flatMap_cons, dealt, List.singleton_append]
    · obtain rfl := Option.some.inj found
      rwa [← Row.line_add plain.of_append_left]

end

/-- There is exactly one way to deal out words like that. -/
theorem isWrapped_iff {begun : Row} {words : List (List Char)} {rows : List Row}
    (plain : AreWords (begun.words ++ words))
    (narrow : wrapWidth < Text.byteLength begun.line → begun.words.length ≤ 1) :
    IsWrapped begun words rows ↔ rows = rowsFrom begun words := by
  induction words generalizing begun rows with
  | nil => exact isWrapped_nil_iff narrow
  | cons word others inductionHypothesis =>
    rw [rowsFrom]
    split
    · next fits =>
      have moved : begun.words ++ word :: others = (begun.add word).words ++ others := by simp [Row.add]
      rw [isWrapped_cons_of_fits plain fits]
      refine inductionHypothesis (moved ▸ plain) fun long => ?_
      rcases fits with none | short
      · simp [Row.add, none]
      · exact absurd short (Nat.not_le.mpr long)
    · next breaks =>
      obtain ⟨filled, long⟩ := not_or.mp breaks
      rw [isWrapped_cons_of_breaks plain narrow filled (Nat.not_le.mp long)]
      have below {rows : List Row} : IsWrapped ⟨continuationIndent, [word]⟩ others rows ↔
          rows = rowsFrom ⟨continuationIndent, [word]⟩ others :=
        inductionHypothesis plain.of_append_right fun _ => Nat.le_refl 1
      simp only [below, exists_eq_right]

theorem wrapEntry_eq_map_rowsFrom (head text : List Char) :
    wrapEntry head text = (rowsFrom ⟨head, []⟩ (Text.words text)).map Row.line := by
  have begun : Row.line ⟨head, []⟩ = head := List.append_nil head
  have rows := @wrapWords_eq_map_rowsFrom ⟨head, []⟩ _ (Text.areWords_words text) false (by simp)
  rwa [begun] at rows

/-- The words of an entry are dealt out to the line of its head and to further lines. -/
theorem exists_layout (head text : List Char) :
    ∃ (taken : List (List Char)) (groups : List (List (List Char))),
      Text.words text = taken ++ groups.flatten ∧ (∀ group ∈ groups, group ≠ []) ∧
      (taken = [] → groups = []) ∧
      wrapEntry head text = (head ++ behindHead head taken) :: groups.map continuationLine := by
  have plain := Text.areWords_words text
  obtain ⟨⟨taken, rest, same, together, indented⟩, dealt, -, -⟩ :=
    (@isWrapped_iff ⟨head, []⟩ (Text.words text) _ plain fun _ => Nat.zero_le 1).mpr rfl
  have further : rest.map Row.line = (rest.map Row.words).map continuationLine := by
    rw [List.map_map]
    refine List.map_congr_left fun row member => ?_
    obtain ⟨start, filled⟩ := indented row member
    rw [Function.comp_apply, ← line_continuation filled, ← start]
  refine ⟨taken, rest.map Row.words, ?_, ?_, ?_, ?_⟩
  · rw [same] at dealt
    exact dealt.symm
  · exact List.forall_mem_map.mpr fun row member => (indented row member).2
  · exact fun none => List.map_eq_nil_iff.mpr (together none)
  · rw [wrapEntry_eq_map_rowsFrom, same, List.map_cons, further]
    rfl

/-- The lines of an entry are its words dealt out behind its head like that. -/
theorem wrapEntry_eq_iff {head text : List Char} {lines : List (List Char)} :
    wrapEntry head text = lines ↔
      ∃ rows, IsWrapped ⟨head, []⟩ (Text.words text) rows ∧ rows.map Row.line = lines := by
  have only (rows : List Row) : IsWrapped ⟨head, []⟩ (Text.words text) rows ↔
      rows = rowsFrom ⟨head, []⟩ (Text.words text) :=
    isWrapped_iff (Text.areWords_words text) fun _ => Nat.zero_le 1
  simp only [only, exists_eq_left, wrapEntry_eq_map_rowsFrom]

/-- A word of any length stays behind its head, and the next one starts a further line. -/
example : wrapEntry "    x:".toList (List.replicate 90 'a' ++ " b c".toList) =
    ["    x: ".toList ++ List.replicate 90 'a', "        b c".toList] := by
  decide +kernel

/-! ### Lines -/

/-- A line that holds no line feed and does not end with a blank. -/
def IsSolid (line : List Char) : Prop :=
  '\n' ∉ line ∧ ∃ last, line.getLast? = some last ∧ Text.isBlank last = false

theorem isSolid_append {start line : List Char} (noFeed : '\n' ∉ start) (solid : IsSolid line) :
    IsSolid (start ++ line) := by
  obtain ⟨lineNoFeed, last, found, notBlank⟩ := solid
  refine ⟨fun inside => ?_, last, ?_, notBlank⟩
  · rcases List.mem_append.mp inside with first | later
    · exact noFeed first
    · exact lineNoFeed later
  · rw [List.getLast?_append, found, Option.some_or]

/-- Solid lines are the lines of what they are joined to. -/
theorem areLines_of_isSolid {lines : List (List Char)} (solid : ∀ line ∈ lines, IsSolid line) :
    Text.AreLines lines := by
  refine ⟨fun line member => ⟨(solid line member).1, fun last => ?_⟩, fun last => ?_⟩
  · obtain ⟨-, character, found, notBlank⟩ := solid line member
    obtain rfl := Option.some.inj (found.symm.trans last)
    exact absurd notBlank (by decide)
  · obtain ⟨-, character, found, -⟩ := solid [] (List.mem_of_getLast? last)
    exact Option.some_ne_none character found.symm

theorem isSolid_spaced {words : List (List Char)} (plain : AreWords words)
    (nonempty : words ≠ []) : IsSolid (spaced words) := by
  refine ⟨Text.not_mem_spaced plain (by decide) (by decide), ?_⟩
  have filled := Text.spaced_ne_nil plain nonempty
  exact ⟨_, List.getLast?_eq_some_getLast filled,
    Text.getLast?_spaced_not_blank plain _ (List.getLast_mem_getLast? filled)⟩

theorem isSolid_continuationLine {words : List (List Char)} (plain : AreWords words)
    (nonempty : words ≠ []) : IsSolid (continuationLine words) :=
  isSolid_append (by decide) (isSolid_spaced plain nonempty)

theorem AreWords.of_mem_flatten {groups : List (List (List Char))}
    (plain : AreWords groups.flatten) {group : List (List Char)} (member : group ∈ groups) :
    AreWords group :=
  fun word inside => plain word (List.mem_flatten_of_mem member inside)

/-- The lines of an entry are solid if its head is, or if its head is on one line and words follow. -/
theorem isSolid_of_mem_wrapEntry {head text line : List Char} (noFeed : '\n' ∉ head)
    (solid : Text.words text = [] → IsSolid head) (member : line ∈ wrapEntry head text) :
    IsSolid line := by
  obtain ⟨taken, groups, dealt, nonempty, together, wrapped⟩ := exists_layout head text
  have plain : AreWords (taken ++ groups.flatten) := dealt ▸ Text.areWords_words text
  rw [wrapped] at member
  rcases List.mem_cons.mp member with rfl | further
  · by_cases none : taken = []
    · rw [none, together none, List.flatten_nil, List.append_nil] at dealt
      rw [none, behindHead, List.isEmpty_nil, if_pos rfl, List.append_nil]
      exact solid dealt
    · rw [behindHead, List.isEmpty_eq_false_iff.mpr none, if_neg Bool.false_ne_true]
      exact isSolid_append noFeed (isSolid_append (newline_not_mem_separator head)
        (isSolid_spaced plain.of_append_left none))
  · obtain ⟨group, inside, rfl⟩ := List.mem_map.mp further
    exact isSolid_continuationLine (AreWords.of_mem_flatten plain.of_append_right inside)
      (nonempty group inside)

end ApiSurface.DocBlock
