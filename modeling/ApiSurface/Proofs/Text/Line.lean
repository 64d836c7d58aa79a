/-
This file proves when lines survive being joined and taken apart again. Joining puts a line feed
between each two lines, so no line may hold one. Taking apart also drops a carriage return before a
line feed and an empty line at the end, so no line may end with a carriage return and the last one
must not be empty.
-/

import ApiSurface.Text.Line
import Mathlib.Data.List.Basic

namespace ApiSurface.Text

/-! ### Joining -/

theorem joinLines_singleton (line : List Char) : joinLines [line] = line :=
  List.intercalate_singleton

theorem joinLines_cons_cons (first second : List Char) (rest : List (List Char)) :
    joinLines (first :: second :: rest) = first ++ '\n' :: joinLines (second :: rest) := by
  rw [joinLines, List.intercalate_cons_cons, List.append_assoc, List.singleton_append, joinLines]

theorem joinLines_cons_of_ne_nil (line : List Char) {rest : List (List Char)}
    (nonempty : rest ≠ []) : joinLines (line :: rest) = line ++ '\n' :: joinLines rest := by
  obtain ⟨next, others, rfl⟩ := List.exists_cons_of_ne_nil nonempty
  exact joinLines_cons_cons line next others

theorem joinLines_append {first second : List (List Char)} (leftNonempty : first ≠ [])
    (rightNonempty : second ≠ []) :
    joinLines (first ++ second) = joinLines first ++ '\n' :: joinLines second := by
  induction first with
  | nil => exact absurd rfl leftNonempty
  | cons line rest inductionHypothesis =>
    cases rest with
    | nil => rw [List.singleton_append, joinLines_cons_of_ne_nil line rightNonempty,
        joinLines_singleton]
    | cons next rest =>
      rw [List.cons_append, List.cons_append, joinLines_cons_cons, joinLines_cons_cons,
        ← List.cons_append, inductionHypothesis (List.cons_ne_nil _ _), List.append_assoc,
        List.cons_append]

/-- Lines that some lines begin with make up a text with which theirs begins. -/
theorem joinLines_prefix {first lines : List (List Char)} (front : first <+: lines) :
    joinLines first <+: joinLines lines := by
  obtain ⟨rest, rfl⟩ := front
  by_cases leftEmpty : first = []
  · rw [leftEmpty]
    exact List.nil_prefix
  by_cases rightEmpty : rest = []
  · simp only [rightEmpty, List.append_nil, List.prefix_rfl]
  · rw [joinLines_append leftEmpty rightEmpty]
    exact List.prefix_append _ _

theorem intercalate_cons_ne_nil {group : List (List Char)} (nonempty : group ≠ [])
    (rest : List (List (List Char))) : [[]].intercalate (group :: rest) ≠ [] := by
  obtain ⟨line, others, rfl⟩ := List.exists_cons_of_ne_nil nonempty
  cases rest with
  | nil =>
    rw [List.intercalate_singleton]
    exact nonempty
  | cons next later =>
    rw [List.intercalate_cons_cons_left]
    exact List.cons_ne_nil _ _

/-- Texts that are made of lines, one empty line apart, are made of all the lines. -/
theorem intercalate_joinLines {groups : List (List (List Char))}
    (nonempty : ∀ group ∈ groups, group ≠ []) :
    ['\n', '\n'].intercalate (groups.map joinLines) = joinLines ([[]].intercalate groups) := by
  induction groups with
  | nil => rfl
  | cons group rest inductionHypothesis =>
    have joined := inductionHypothesis fun other member =>
      nonempty other (List.mem_cons_of_mem _ member)
    cases rest with
    | nil =>
      rw [List.map_singleton, List.intercalate_singleton, List.intercalate_singleton]
    | cons next rest =>
      have later := intercalate_cons_ne_nil
        (nonempty next (List.mem_cons_of_mem _ List.mem_cons_self)) rest
      have right : joinLines ([[]].intercalate (group :: next :: rest)) =
          joinLines group ++ '\n' :: '\n' :: joinLines ([[]].intercalate (next :: rest)) := by
        rw [List.intercalate_cons_cons, List.append_assoc, List.singleton_append,
          joinLines_append (nonempty group List.mem_cons_self) (List.cons_ne_nil _ _),
          joinLines_cons_of_ne_nil [] later]
        rfl
      rw [right, ← joined, List.map_cons, List.map_cons, List.intercalate_cons_cons,
        List.append_assoc]
      rfl

/-! ### Length -/

theorem byteLength_append (first second : List Char) :
    byteLength (first ++ second) = byteLength first + byteLength second := by
  induction first with
  | nil => exact (Nat.zero_add _).symm
  | cons character rest inductionHypothesis =>
    exact (congrArg (character.utf8Size + ·) inductionHypothesis).trans (Nat.add_assoc _ _ _).symm

/-- Two beginnings of a text with as many bytes are the same. -/
theorem eq_of_byteLength_eq {text first second : List Char} (front : first <+: text)
    (other : second <+: text) (same : byteLength first = byteLength second) : first = second := by
  have equal {short long : List Char} (begins : short <+: long)
      (same : byteLength short = byteLength long) : short = long := by
    obtain ⟨rest, rfl⟩ := begins
    cases rest with
    | nil => exact (List.append_nil _).symm
    | cons character rest =>
      rw [byteLength_append] at same
      have some : 0 < byteLength (character :: rest) := Nat.add_pos_left character.utf8Size_pos _
      omega
  rcases List.prefix_or_prefix_of_prefix front other with begins | begins
  · exact equal begins same
  · exact (equal begins same.symm).symm

theorem splitBytes?_eq_some {count : Nat} {text before after : List Char}
    (split : splitBytes? count text = some (before, after)) :
    text = before ++ after ∧ byteLength before = count := by
  fun_induction splitBytes? count text generalizing before with
  | case1 text =>
    obtain ⟨rfl, rfl⟩ := Prod.mk.inj (Option.some.inj split)
    exact ⟨rfl, rfl⟩
  | case2 => cases split
  | case3 count character rest fits inductionHypothesis =>
    obtain ⟨⟨front, behind⟩, further, made⟩ := Option.map_eq_some_iff.mp split
    obtain ⟨rfl, rfl⟩ := Prod.mk.inj made
    obtain ⟨rfl, length⟩ := inductionHypothesis further
    refine ⟨rfl, ?_⟩
    show character.utf8Size + byteLength front = count + 1
    omega
  | case4 => cases split

/-- A part that is cut out of a text stands in it and ends where it should. -/
theorem cutBytes?_eq_some {start stop : Nat} {text part : List Char}
    (cut : cutBytes? start stop text = some part) :
    ∃ before after, text = before ++ part ++ after ∧ byteLength (before ++ part) = stop := by
  unfold cutBytes? at cut
  split at cut
  · next ordered =>
    obtain ⟨⟨before, behind⟩, first, cut⟩ := Option.bind_eq_some_iff.mp cut
    obtain ⟨⟨taken, after⟩, second, made⟩ := Option.bind_eq_some_iff.mp cut
    obtain rfl := Option.some.inj made
    obtain ⟨rfl, front⟩ := splitBytes?_eq_some first
    obtain ⟨rfl, length⟩ := splitBytes?_eq_some second
    refine ⟨before, after, (List.append_assoc _ _ _).symm, ?_⟩
    rw [byteLength_append, front, length, Nat.add_sub_cancel' ordered]
  · cases cut

/-! ### Taking apart -/

/-- The ending of a line is cut off behind its last character that is no carriage return. -/
theorem dropReturn_append_cons {last : Char} (solid : last ≠ '\r') (before rest : List Char) :
    dropReturn (before ++ last :: rest) = before ++ last :: dropReturn rest := by
  cases rest with
  | nil => simp [dropReturn, solid]
  | cons first others =>
    have same : (before ++ last :: first :: others).getLast? = (first :: others).getLast? := by
      rw [List.getLast?_append_of_ne_nil _ (List.cons_ne_nil _ _), List.getLast?_cons_cons]
    unfold dropReturn
    rw [same]
    split
    · rw [List.dropLast_append_of_ne_nil (List.cons_ne_nil _ _), List.dropLast_cons_cons]
    · rfl

theorem lines_of_notMem {line : List Char} (plain : '\n' ∉ line) :
    lines line = if line.isEmpty then [] else [line] := by
  rw [lines, ← List.splitOn_eq_splitOnP, List.splitOn_eq_singleton plain, linesOfPieces]

theorem lines_append_lineFeed {line : List Char} (plain : '\n' ∉ line) (rest : List Char) :
    lines (line ++ '\n' :: rest) = dropReturn line :: lines rest := by
  obtain ⟨next, others, pieces⟩ := List.exists_cons_of_ne_nil (List.splitOn_ne_nil '\n' rest)
  rw [lines, ← List.splitOn_eq_splitOnP, List.splitOn_append_cons_self_of_not_mem plain, lines,
    ← List.splitOn_eq_splitOnP, pieces, linesOfPieces]

/-- Every text is a single line without its ending, or starts with one and goes on behind its ending. -/
theorem induction_lines {motive : List Char → Prop} (last : ∀ line, '\n' ∉ line → motive line)
    (more : ∀ line rest, '\n' ∉ line → motive rest → motive (line ++ '\n' :: rest)) (text : List Char) :
    motive text := by
  induction size : text.length using Nat.strongRecOn generalizing text with
  | ind length inductionHypothesis =>
    by_cases fed : '\n' ∈ text
    · obtain ⟨line, rest, rfl, plain⟩ := List.eq_append_cons_of_mem fed
      have shorter : rest.length < length := by
        rw [← size, List.length_append, List.length_cons]
        exact Nat.lt_add_left _ (Nat.lt_succ_self _)
      exact more line rest plain (inductionHypothesis rest.length shorter rest rfl)
    · exact last text fed

theorem lines_ne_nil {text : List Char} (nonempty : text ≠ []) : lines text ≠ [] := by
  induction text using induction_lines with
  | last line plain =>
    rw [lines_of_notMem plain, if_neg fun empty => nonempty (List.isEmpty_iff.mp empty)]
    exact List.cons_ne_nil _ _
  | more line rest plain _ =>
    rw [lines_append_lineFeed plain]
    exact List.cons_ne_nil _ _

theorem linesOfPieces_eq_self {pieces : List (List Char)}
    (noReturn : ∀ piece ∈ pieces, piece.getLast? ≠ some '\r')
    (lastNonempty : pieces.getLast? ≠ some []) : linesOfPieces pieces = pieces := by
  induction pieces with
  | nil => rfl
  | cons line rest inductionHypothesis =>
    cases rest with
    | nil =>
      have nonempty : line.isEmpty = false :=
        List.isEmpty_eq_false_iff.mpr fun empty => lastNonempty (congrArg some empty)
      rw [linesOfPieces, nonempty]
      exact if_neg Bool.false_ne_true
    | cons next rest =>
      rw [List.getLast?_cons_cons] at lastNonempty
      rw [linesOfPieces, dropReturn, if_neg (noReturn line List.mem_cons_self),
        inductionHypothesis (fun piece member => noReturn piece (List.mem_cons_of_mem _ member))
          lastNonempty]

/-- Lines that joining and taking apart leaves as they are: none holds a line feed or ends with a
carriage return, and the last one is not empty. -/
def AreLines (given : List (List Char)) : Prop :=
  (∀ line ∈ given, '\n' ∉ line ∧ line.getLast? ≠ some '\r') ∧ given.getLast? ≠ some []

theorem lines_joinLines {given : List (List Char)} (apart : AreLines given) :
    lines (joinLines given) = given := by
  obtain ⟨each, lastNonempty⟩ := apart
  by_cases empty : given = []
  · rw [empty]
    rfl
  · rw [lines, ← List.splitOn_eq_splitOnP, joinLines,
      List.splitOn_intercalate '\n' (fun line member => (each line member).1) empty]
    exact linesOfPieces_eq_self (fun line member => (each line member).2) lastNonempty

/-- A piece of joined lines is one of the lines, unless there are none. -/
theorem of_mem_splitOn_joinLines {given : List (List Char)} (plain : ∀ line ∈ given, '\n' ∉ line)
    {piece : List Char} (member : piece ∈ (joinLines given).splitOn '\n') :
    piece = [] ∨ piece ∈ given := by
  by_cases empty : given = []
  · rw [empty, joinLines, List.intercalate_nil, List.splitOn_nil] at member
    exact .inl (List.mem_singleton.mp member)
  · rw [joinLines, List.splitOn_intercalate '\n' plain empty] at member
    exact .inr member

theorem areLines_append {first second : List (List Char)}
    (each : ∀ line ∈ first, '\n' ∉ line ∧ line.getLast? ≠ some '\r') (below : AreLines second)
    (filled : second ≠ []) : AreLines (first ++ second) := by
  refine ⟨List.forall_mem_append.mpr ⟨each, below.1⟩, ?_⟩
  rw [List.getLast?_append_of_ne_nil _ filled]
  exact below.2

/-- Groups of lines, one empty line apart, are lines together. -/
theorem areLines_intercalate {groups : List (List (List Char))}
    (each : ∀ group ∈ groups, group ≠ [] ∧ AreLines group) : AreLines ([[]].intercalate groups) := by
  induction groups with
  | nil => exact ⟨fun _ member => absurd member List.not_mem_nil, Option.some_ne_none _ ∘ Eq.symm⟩
  | cons group rest inductionHypothesis =>
    obtain ⟨-, here⟩ := each group List.mem_cons_self
    cases rest with
    | nil =>
      rw [List.intercalate_singleton]
      exact here
    | cons next others =>
      have below := inductionHypothesis fun other member => each other (List.mem_cons_of_mem _ member)
      have filled := intercalate_cons_ne_nil
        (each next (List.mem_cons_of_mem _ List.mem_cons_self)).1 others
      have gap : '\n' ∉ ([] : List Char) ∧ ([] : List Char).getLast? ≠ some '\r' :=
        ⟨List.not_mem_nil, Option.some_ne_none _ ∘ Eq.symm⟩
      rw [List.intercalate_cons_cons]
      exact areLines_append
        (List.forall_mem_append.mpr ⟨here.1, List.forall_mem_singleton.mpr gap⟩) below filled

end ApiSurface.Text
