/-
This file says which texts are trimmed line by line: there is no blank at their ends and none at the ends
of their lines. Texts of this kind stay so when line feeds or empty lines are put between them, so a text
that is cut into lines and paragraphs and put together again without blanks is one. A text is called tight if
only the ends of its lines matter: cutting these and dropping the line feeds around the text gives a tight
text, and takes nothing from one. A line is then what stands between two line feeds, so that a carriage
return at its end is a blank at its end.
-/

import ApiSurface.Proofs.Text.Blank
import ApiSurface.Proofs.Text.Line
import Mathlib.Data.List.Induction

namespace ApiSurface.Text

/-! ### Lines -/

theorem trimEnd_dropReturn (line : List Char) : trimEnd (dropReturn line) = trimEnd line := by
  unfold dropReturn
  split
  · next carriage =>
    obtain ⟨before, rfl⟩ := List.getLast?_eq_some_iff.mp carriage
    rw [List.dropLast_concat, trimEnd_concat_of_blank (by decide)]
  · rfl

theorem trim_dropReturn (line : List Char) : trim (dropReturn line) = trim line := by
  unfold dropReturn
  split
  · next carriage =>
    obtain ⟨before, rfl⟩ := List.getLast?_eq_some_iff.mp carriage
    rw [List.dropLast_concat, trim_concat_of_blank (by decide)]
  · rfl

theorem newline_notMem_of_mem_lines {text line : List Char} (member : line ∈ lines text) :
    '\n' ∉ line := by
  have noFeed (pieces : List (List Char)) (each : ∀ piece ∈ pieces, '\n' ∉ piece) :
      ∀ line ∈ linesOfPieces pieces, '\n' ∉ line := by
    fun_induction linesOfPieces pieces with
    | case1 => exact fun _ inside => absurd inside List.not_mem_nil
    | case2 last empty => exact fun _ inside => absurd inside List.not_mem_nil
    | case3 last filled => exact each
    | case4 first next rest inductionHypothesis =>
      intro line inside
      rcases List.mem_cons.mp inside with rfl | further
      · have whole := each first List.mem_cons_self
        unfold dropReturn
        split
        · exact fun feed => whole (List.dropLast_subset _ feed)
        · exact whole
      · exact inductionHypothesis (fun piece there => each piece (List.mem_cons_of_mem _ there)) line
          further
  refine noFeed _ (fun piece inside feed => ?_) line member
  exact absurd (not_of_mem_splitOnP inside '\n' feed) (by decide)

section

variable {holds : List Char → Prop} {given : List (List Char)}

theorem exists_trimStart_joinLines (start : ∀ line, holds line → holds (trimStart line))
    (each : ∀ line ∈ given, holds line) :
    ∃ kept, (∀ line ∈ kept, holds line) ∧ trimStart (joinLines given) = joinLines kept := by
  induction given with
  | nil => exact ⟨[], each, rfl⟩
  | cons line rest inductionHypothesis =>
    obtain ⟨here, further⟩ := List.forall_mem_cons.mp each
    have put := List.forall_mem_cons.mpr ⟨start line here, further⟩
    by_cases alone : rest = []
    · rw [alone] at put ⊢
      exact ⟨_, put, by rw [joinLines_singleton, joinLines_singleton]⟩
    rw [joinLines_cons_of_ne_nil line alone, trimStart, List.dropWhile_append]
    split
    · rw [← trimStart, trimStart_cons_of_blank (by decide)]
      exact inductionHypothesis further
    · exact ⟨_, put, (joinLines_cons_of_ne_nil _ alone).symm⟩

theorem exists_trimEnd_joinLines (stop : ∀ line, holds line → holds (trimEnd line))
    (each : ∀ line ∈ given, holds line) :
    ∃ kept, (∀ line ∈ kept, holds line) ∧ trimEnd (joinLines given) = joinLines kept := by
  induction given using List.reverseRecOn with
  | nil => exact ⟨[], each, rfl⟩
  | append_singleton before line inductionHypothesis =>
    obtain ⟨earlier, here⟩ := List.forall_mem_append.mp each
    have put := List.forall_mem_append.mpr
      ⟨earlier, List.forall_mem_singleton.mpr (stop line (List.forall_mem_singleton.mp here))⟩
    by_cases alone : before = []
    · rw [alone] at put ⊢
      exact ⟨_, put, by rw [List.nil_append, List.nil_append, joinLines_singleton, joinLines_singleton]⟩
    have feed : trimEnd ('\n' :: line) = if (trimEnd line).isEmpty then [] else '\n' :: trimEnd line :=
      trimEnd_append ['\n'] line
    rw [joinLines_append alone (List.cons_ne_nil _ _), joinLines_singleton, trimEnd_append, feed]
    by_cases blank : trimEnd line = []
    · rw [blank]
      exact inductionHypothesis earlier
    · rw [List.isEmpty_eq_false_iff.mpr blank]
      refine ⟨_, put, ?_⟩
      rw [joinLines_append alone (List.cons_ne_nil _ _), joinLines_singleton]
      rfl

/-- Trimming joined lines takes lines away and trims those at the ends, so what trimming a line keeps
holds of the lines that are left. -/
theorem exists_trim_joinLines (start : ∀ line, holds line → holds (trimStart line))
    (stop : ∀ line, holds line → holds (trimEnd line)) (each : ∀ line ∈ given, holds line) :
    ∃ kept, (∀ line ∈ kept, holds line) ∧ trim (joinLines given) = joinLines kept := by
  obtain ⟨started, holdsStarted, same⟩ := exists_trimStart_joinLines start each
  obtain ⟨kept, holdsKept, ended⟩ := exists_trimEnd_joinLines stop holdsStarted
  exact ⟨kept, holdsKept, by rw [trim, same, ended]⟩

end

/-! ### Trimmed lines -/

/-- A text that has no blank at its ends and none at the ends of its lines. -/
def IsTrimmed (text : List Char) : Prop :=
  trim text = text ∧ ∀ line ∈ text.splitOn '\n', trim line = line

instance (text : List Char) : Decidable (IsTrimmed text) :=
  inferInstanceAs (Decidable (_ ∧ _))

theorem isTrimmed_of_line {line : List Char} (trimmed : trim line = line) (noFeed : '\n' ∉ line) :
    IsTrimmed line := by
  refine ⟨trimmed, fun piece member => ?_⟩
  rw [List.splitOn_eq_singleton noFeed, List.mem_singleton] at member
  rw [member, trimmed]

/-- Texts that a line feed separates, and perhaps an empty line. -/
theorem IsTrimmed.append {first second : List Char} (before : IsTrimmed first)
    (after : IsTrimmed second) (nonempty : first ≠ []) (secondNonempty : second ≠ []) :
    IsTrimmed (first ++ ['\n'] ++ second) ∧ IsTrimmed (first ++ ['\n', '\n'] ++ second) := by
  have ends (between : List Char) :
      trim (first ++ between ++ second) = first ++ between ++ second := by
    refine (trim_eq_self_iff _).mpr ⟨fun start found => ?_, fun last found => ?_⟩
    · rw [List.append_assoc, List.head?_append_of_ne_nil _ nonempty] at found
      exact ((trim_eq_self_iff _).mp before.1).1 start found
    · rw [List.getLast?_append_of_ne_nil _ secondNonempty] at found
      exact ((trim_eq_self_iff _).mp after.1).2 last found
  refine ⟨⟨ends _, fun line member => ?_⟩, ⟨ends _, fun line member => ?_⟩⟩
  · rw [List.append_assoc, List.singleton_append, List.splitOn_append_cons_self] at member
    exact (List.mem_append.mp member).elim (before.2 line) (after.2 line)
  · have apart : first ++ ['\n', '\n'] ++ second = first ++ '\n' :: ([] ++ '\n' :: second) := by
      rw [List.append_assoc]
      rfl
    rw [apart, List.splitOn_append_cons_self, List.splitOn_append_cons_self] at member
    rcases List.mem_append.mp member with early | member
    · exact before.2 line early
    rcases List.mem_append.mp member with gap | late
    · rw [List.splitOn_nil, List.mem_singleton] at gap
      rw [gap]
      rfl
    · exact after.2 line late

/-- A separator that keeps two texts trimmed keeps any number of them trimmed. -/
theorem isTrimmed_intercalate {separator : List Char}
    (joins : ∀ {first second : List Char}, IsTrimmed first → IsTrimmed second → first ≠ [] →
      second ≠ [] → IsTrimmed (first ++ separator ++ second))
    {texts : List (List Char)} (each : ∀ text ∈ texts, IsTrimmed text ∧ text ≠ [])
    (nonempty : texts ≠ []) :
    IsTrimmed (separator.intercalate texts) ∧ separator.intercalate texts ≠ [] := by
  induction texts with
  | nil => exact absurd rfl nonempty
  | cons first rest inductionHypothesis =>
    obtain ⟨trimmed, filled⟩ := each first List.mem_cons_self
    cases rest with
    | nil =>
      rw [List.intercalate_singleton]
      exact ⟨trimmed, filled⟩
    | cons second others =>
      obtain ⟨further, furtherFilled⟩ := inductionHypothesis
        (fun text member => each text (List.mem_cons_of_mem _ member)) (List.cons_ne_nil _ _)
      rw [List.intercalate_cons_cons]
      exact ⟨joins trimmed further filled furtherFilled,
        List.append_ne_nil_of_right_ne_nil _ furtherFilled⟩

/-! ### Tight texts -/

/-- A text of which no line ends with a blank and that neither starts nor ends with a line feed. -/
def IsTight (text : List Char) : Prop :=
  (∀ line ∈ text.splitOn '\n', ∀ last ∈ line.getLast?, isBlank last = false) ∧
    text.head? ≠ some '\n' ∧ text.getLast? ≠ some '\n'

-- Characters are not gone through one by one: a line has at most one last character.
instance (text : List Char) : Decidable (IsTight text) :=
  have (line : List Char) : Decidable (∀ last ∈ line.getLast?, isBlank last = false) :=
    Option.decidableForallMem _
  inferInstanceAs (Decidable (_ ∧ _))

theorem trimLineFeeds_eq (text : List Char) :
    trimLineFeeds text = (text.dropWhile (· == '\n')).rdropWhile (· == '\n') :=
  dropEndWhile_eq_rdropWhile _ _

theorem trimLineFeeds_cons_lineFeed (rest : List Char) :
    trimLineFeeds ('\n' :: rest) = trimLineFeeds rest := rfl

theorem trimLineFeeds_concat_lineFeed (text : List Char) :
    trimLineFeeds (text ++ ['\n']) = trimLineFeeds text := by
  rw [trimLineFeeds_eq, trimLineFeeds_eq, List.dropWhile_append]
  split
  · next empty => rw [List.isEmpty_iff.mp empty]; rfl
  · exact List.rdropWhile_concat_pos _ _ _ rfl

theorem head?_trimLineFeeds_ne (text : List Char) : (trimLineFeeds text).head? ≠ some '\n' := by
  rw [trimLineFeeds_eq]
  intro first
  obtain ⟨rest, whole⟩ := List.rdropWhile_prefix (· == '\n') (text.dropWhile (· == '\n'))
  have start := List.head?_dropWhile_not (· == '\n') text
  rw [← whole, List.head?_append, first] at start
  simp at start

theorem getLast?_trimLineFeeds_ne (text : List Char) : (trimLineFeeds text).getLast? ≠ some '\n' := by
  rw [trimLineFeeds_eq]
  intro last
  obtain ⟨filled, same⟩ := List.mem_getLast?_eq_getLast last
  exact List.rdropWhile_last_not _ _ filled (by simp [← same])

/-- A text that neither starts nor ends with a line feed has none to drop. -/
theorem trimLineFeeds_eq_self {text : List Char} (start : text.head? ≠ some '\n')
    (stop : text.getLast? ≠ some '\n') : trimLineFeeds text = text := by
  have front : text.dropWhile (· == '\n') = text := by
    cases text with
    | nil => rfl
    | cons first rest => exact List.dropWhile_cons_of_neg (by simpa using start)
  rw [trimLineFeeds_eq, front, List.rdropWhile_eq_self_iff]
  intro filled feed
  exact stop (by rw [List.getLast?_eq_some_getLast filled, eq_of_beq feed])

theorem mem_splitOn_of_dropWhile {text line : List Char}
    (member : line ∈ (text.dropWhile (· == '\n')).splitOn '\n') : line ∈ text.splitOn '\n' := by
  induction text with
  | nil => exact member
  | cons first rest inductionHypothesis =>
    by_cases feed : first = '\n'
    · subst feed
      have behind := inductionHypothesis member
      rw [show '\n' :: rest = [] ++ '\n' :: rest from rfl, List.splitOn_append_cons_self]
      exact List.mem_append_right _ behind
    · rwa [List.dropWhile_cons_of_neg (by simpa using feed)] at member

theorem mem_splitOn_of_rdropWhile {text line : List Char}
    (member : line ∈ (text.rdropWhile (· == '\n')).splitOn '\n') : line ∈ text.splitOn '\n' := by
  induction text using List.reverseRecOn with
  | nil => exact member
  | append_singleton before last inductionHypothesis =>
    by_cases feed : last = '\n'
    · subst feed
      rw [List.rdropWhile_concat_pos _ _ _ rfl] at member
      rw [List.splitOn_append_cons_self]
      exact List.mem_append_left _ (inductionHypothesis member)
    · rwa [List.rdropWhile_concat_neg _ _ _ (by simpa using feed)] at member

/-- Dropping line feeds takes lines away and changes none. -/
theorem mem_splitOn_of_trimLineFeeds {text line : List Char}
    (member : line ∈ (trimLineFeeds text).splitOn '\n') : line ∈ text.splitOn '\n' := by
  rw [trimLineFeeds_eq] at member
  exact mem_splitOn_of_dropWhile (mem_splitOn_of_rdropWhile member)

/-- Lines that are cut at the end, without the line feeds around them, are a tight text. -/
theorem isTight_trimLineFeeds {given : List (List Char)} (plain : ∀ line ∈ given, '\n' ∉ line) :
    IsTight (trimLineFeeds (joinLines (given.map trimEnd))) := by
  refine ⟨fun line member => ?_, head?_trimLineFeeds_ne _, getLast?_trimLineFeeds_ne _⟩
  have cutPlain : ∀ line ∈ given.map trimEnd, '\n' ∉ line :=
    List.forall_mem_map.mpr fun line inside feed => plain line inside (mem_of_mem_trimEnd feed)
  rw [← trimEnd_eq_self_iff]
  rcases of_mem_splitOn_joinLines cutPlain (mem_splitOn_of_trimLineFeeds member) with rfl | cut
  · rfl
  · obtain ⟨whole, -, rfl⟩ := List.mem_map.mp cut
    exact trimEnd_trimEnd whole

/-- The lines of a tight text are what stands between its line feeds. -/
theorem IsTight.lines_eq {text : List Char} (tight : IsTight text) (filled : text ≠ []) :
    lines text = text.splitOn '\n' := by
  rw [lines, ← List.splitOn_eq_splitOnP]
  refine linesOfPieces_eq_self (fun piece member carriage => ?_) fun last => ?_
  · exact absurd (tight.1 piece member '\r' carriage) (by decide)
  · obtain ⟨before, pieces⟩ := List.getLast?_eq_some_iff.mp last
    have joined : joinLines (text.splitOn '\n') = text := List.intercalate_splitOn '\n'
    rw [pieces] at joined
    by_cases alone : before = []
    · rw [alone, List.nil_append, joinLines_singleton] at joined
      exact filled joined.symm
    · rw [joinLines_append alone (List.cons_ne_nil _ _), joinLines_singleton] at joined
      exact tight.2.2 (by rw [← joined, List.getLast?_concat])

/-- Nothing of a tight text is cut or dropped. -/
theorem IsTight.trimLineFeeds_lines {text : List Char} (tight : IsTight text) :
    trimLineFeeds (joinLines ((lines text).map trimEnd)) = text := by
  by_cases filled : text = []
  · rw [filled]
    rfl
  · have kept : (text.splitOn '\n').map trimEnd = (text.splitOn '\n').map id :=
      List.map_congr_left fun line member => (trimEnd_eq_self_iff line).mpr (tight.1 line member)
    rw [tight.lines_eq filled, kept, List.map_id, joinLines, List.intercalate_splitOn]
    exact trimLineFeeds_eq_self tight.2.1 tight.2.2

end ApiSurface.Text
