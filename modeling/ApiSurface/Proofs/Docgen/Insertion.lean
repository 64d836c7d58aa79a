/-
This file proves what putting comments above functions does to the rest of a source. Putting them in from
below gives the lines in their order, each below the comments for it, because no comment that is put in
later stands further down. Every comment that was written goes into the source if every function starts
on one of its lines. What is not part of a comment are the lines of the source, each with a line
feed, so a source is kept if its lines end that way. A carriage return before a line feed does not come
back, and then no source is kept, whether anything was written or not.
-/

import ApiSurface.Docgen.Report
import ApiSurface.Proofs.Docgen.Site
import ApiSurface.Proofs.Keyed
import ApiSurface.Proofs.Text.Occurrence

namespace ApiSurface.Docgen

/-! ### Insertion -/

/-- The blocks, each with a line feed, are inserted into a text in their order: deleting them leaves the
text. -/
inductive IsInsertedInto : List (List Char) → List Char → List Char → Prop
  | done : IsInsertedInto [] [] []
  | kept {blocks : List (List Char)} {text result : List Char} (character : Char)
    (rest : IsInsertedInto blocks text result) :
    IsInsertedInto blocks (character :: text) (character :: result)
  | inserted {blocks : List (List Char)} {text result : List Char} (block : List Char)
    (rest : IsInsertedInto blocks text result) :
    IsInsertedInto (block :: blocks) text (block ++ '\n' :: result)

namespace IsInsertedInto

variable {blocks : List (List Char)} {text result : List Char}

theorem append (rest : IsInsertedInto blocks text result) (kept : List Char) :
    IsInsertedInto blocks (kept ++ text) (kept ++ result) := by
  induction kept with
  | nil => exact rest
  | cons first others inductionHypothesis => exact .kept first inductionHypothesis

theorem above (rest : IsInsertedInto blocks text result) (more : List (List Char)) :
    IsInsertedInto (more ++ blocks) text (more.flatMap (· ++ ['\n']) ++ result) := by
  induction more with
  | nil => exact rest
  | cons first others inductionHypothesis =>
    rw [List.flatMap_cons, List.append_assoc, List.append_assoc]
    exact .inserted first inductionHypothesis

/-- Insertion adds the characters of the blocks and a line feed for each of them. -/
theorem length_eq (inserted : IsInsertedInto blocks text result) :
    result.length = text.length + (blocks.map fun block => block.length + 1).sum := by
  induction inserted with
  | done => rfl
  | kept character _ inductionHypothesis =>
    rw [List.length_cons, List.length_cons, inductionHypothesis, Nat.add_right_comm]
  | inserted block _ inductionHypothesis =>
    rw [List.length_append, List.length_cons, inductionHypothesis, List.map_cons, List.sum_cons]
    omega

end IsInsertedInto

/-! ### Lines -/

/-- A text in which no carriage return belongs to the ending of a line. -/
def withLineFeeds (text : List Char) : List Char :=
  Text.replaceAll ['\r', '\n'] ['\n'] text

theorem withLineFeeds_of_notMem {line : List Char} (plain : '\n' ∉ line) : withLineFeeds line = line :=
  Text.replaceAll_of_occurrences_eq_zero (Text.occurrences_of_notMem plain)

theorem withLineFeeds_line {line : List Char} (plain : '\n' ∉ line) (rest : List Char) :
    withLineFeeds (line ++ '\n' :: rest) = Text.dropReturn line ++ '\n' :: withLineFeeds rest := by
  have feed : withLineFeeds ('\n' :: rest) = '\n' :: withLineFeeds rest :=
    Text.replaceAll_cons_of_ne (by decide)
  induction line using List.reverseRecOn with
  | nil => exact feed
  | append_singleton before last =>
    rw [List.mem_append, List.mem_singleton, not_or] at plain
    have split : withLineFeeds (before ++ [last] ++ '\n' :: rest) =
        before ++ withLineFeeds (last :: '\n' :: rest) := by
      rw [List.append_assoc, List.singleton_append]
      exact Text.replaceAll_pair_append plain.1 (Ne.symm plain.2) _
    rw [split, Text.dropReturn, List.getLast?_concat, List.dropLast_concat]
    by_cases carriage : last = '\r'
    · subst carriage
      rw [if_pos rfl]
      exact congrArg (before ++ ·) (Text.replaceAll_pattern_append (List.cons_ne_nil _ _) rest)
    · have kept : withLineFeeds (last :: '\n' :: rest) = last :: withLineFeeds ('\n' :: rest) :=
        Text.replaceAll_cons_of_ne carriage
      rw [if_neg fun same => carriage (Option.some.inj same), kept, feed, List.append_assoc,
        List.singleton_append]

/-! ### Comments from below -/

/-- The comments that go above the line with a number. -/
def commentsAt (row : Nat) (written : List (FunctionSite × String)) : List (List Char) :=
  (written.filter fun entry => entry.1.line == row).reverse.map fun (site, text) =>
    DocBlock.commentChars text.toList site.indent.toList

/-- The lines from the one with number `row` on, each below its comments. -/
def withComments (written : List (FunctionSite × String)) (row : Nat) :
    List (List Char) → List (List Char)
  | [] => []
  | line :: rest => commentsAt row written ++ line :: withComments written (row + 1) rest

theorem commentsAt_concat (row : Nat) (written : List (FunctionSite × String))
    (entry : FunctionSite × String) :
    commentsAt row (written ++ [entry]) =
      (if entry.1.line = row then [DocBlock.commentChars entry.2.toList entry.1.indent.toList] else []) ++
        commentsAt row written := by
  by_cases here : entry.1.line = row <;> simp [commentsAt, here]

theorem commentsAt_eq_nil {row : Nat} {written : List (FunctionSite × String)}
    (elsewhere : ∀ entry ∈ written, entry.1.line ≠ row) : commentsAt row written = [] := by
  simpa [commentsAt] using elsewhere

/-- A comment for a line above changes nothing. -/
theorem withComments_concat_of_lt {row : Nat} {entry : FunctionSite × String} (above : entry.1.line < row)
    (written : List (FunctionSite × String)) (lines : List (List Char)) :
    withComments (written ++ [entry]) row lines = withComments written row lines := by
  induction lines generalizing row with
  | nil => rfl
  | cons line rest inductionHypothesis =>
    rw [withComments, commentsAt_concat, if_neg (Nat.ne_of_lt above),
      inductionHypothesis (Nat.lt_succ_of_lt above), List.nil_append, withComments]

/-- A comment for a line that is not below those of the others is put in where this line still is. -/
theorem withComments_concat {entry : FunctionSite × String} {written : List (FunctionSite × String)}
    (below : ∀ other ∈ written, entry.1.line ≤ other.1.line) {row : Nat} {lines : List (List Char)}
    (reached : row ≤ entry.1.line) (inside : entry.1.line < row + lines.length) :
    withComments (written ++ [entry]) row lines =
      (withComments written row lines).insertIdx (entry.1.line - row)
        (DocBlock.commentChars entry.2.toList entry.1.indent.toList) := by
  induction lines generalizing row with
  | nil => exact absurd inside (Nat.not_lt.mpr reached)
  | cons line rest inductionHypothesis =>
    rw [withComments, withComments, commentsAt_concat]
    by_cases here : entry.1.line = row
    · rw [if_pos here, withComments_concat_of_lt (here ▸ Nat.lt_succ_self row), here, Nat.sub_self,
        List.insertIdx_zero]
      rfl
    · have further : row + 1 ≤ entry.1.line := Nat.lt_of_le_of_ne reached (Ne.symm here)
      have none : commentsAt row written = [] :=
        commentsAt_eq_nil fun other member same => absurd (same ▸ below other member) (by omega)
      rw [if_neg here, none, inductionHypothesis further (by simp at inside; omega),
        show entry.1.line - row = entry.1.line - (row + 1) + 1 by omega]
      rfl

theorem withComments_nil (row : Nat) (lines : List (List Char)) : withComments [] row lines = lines := by
  induction lines generalizing row with
  | nil => rfl
  | cons line rest inductionHypothesis =>
    rw [withComments, inductionHypothesis]
    rfl

theorem withComments_congr {written others : List (FunctionSite × String)}
    (same : ∀ row, commentsAt row written = commentsAt row others) (row : Nat)
    (lines : List (List Char)) : withComments written row lines = withComments others row lines := by
  induction lines generalizing row with
  | nil => rfl
  | cons line rest inductionHypothesis =>
    rw [withComments, withComments, same, inductionHypothesis]

theorem isBelow_trans (first second third : FunctionSite × String) (later : isBelow first second = true)
    (latest : isBelow second third = true) : isBelow first third = true :=
  decide_eq_true (Nat.le_trans (of_decide_eq_true latest) (of_decide_eq_true later))

theorem isBelow_total (first second : FunctionSite × String) :
    (isBelow first second || isBelow second first) = true := by
  simpa [isBelow] using Nat.le_total second.1.line first.1.line

/-- Sorting keeps the order of what goes above one line. -/
theorem filter_mergeSort_isBelow (written : List (FunctionSite × String)) (row : Nat) :
    ((written.mergeSort isBelow).filter fun entry => entry.1.line == row) =
      written.filter fun entry => entry.1.line == row := by
  have ordered : (written.filter fun entry => entry.1.line == row).Pairwise
      fun first second => isBelow first second = true := by
    refine List.pairwise_of_forall_mem_list fun first here second there => ?_
    have one := List.of_mem_filter here
    have other := List.of_mem_filter there
    simp only [beq_iff_eq] at one other
    simp [isBelow, one, other]
  have kept := (List.sublist_mergeSort isBelow_trans isBelow_total ordered List.filter_sublist).filter
    fun entry => entry.1.line == row
  rw [List.filter_filter] at kept
  simp only [Bool.and_self] at kept
  exact (kept.eq_of_length ((List.mergeSort_perm _ _).filter _).length_eq.symm).symm

/-- Comments that come in this order are laid out above their lines. -/
theorem foldl_putAbove {written : List (FunctionSite × String)} {lines : List (List Char)}
    (sorted : written.Pairwise fun first second => isBelow first second = true)
    (inside : ∀ entry ∈ written, entry.1.line < lines.length) :
    written.foldl putAbove lines = withComments written 0 lines := by
  induction written using List.reverseRecOn with
  | nil => exact (withComments_nil 0 lines).symm
  | append_singleton before entry inductionHypothesis =>
    obtain ⟨sortedBefore, -, below⟩ := List.pairwise_append.mp sorted
    obtain ⟨insideBefore, here⟩ := List.forall_mem_append.mp inside
    have lower : ∀ other ∈ before, entry.1.line ≤ other.1.line := fun other member =>
      of_decide_eq_true (below other member entry List.mem_cons_self)
    rw [List.foldl_append, inductionHypothesis sortedBefore insideBefore,
      withComments_concat lower (Nat.zero_le _) ((Nat.zero_add lines.length).symm ▸
        here entry List.mem_cons_self)]
    rfl

/-- Comments that are put in from below stand above their lines. -/
theorem insertFromBelow_eq {written : List (FunctionSite × String)} {lines : List (List Char)}
    (inside : ∀ entry ∈ written, entry.1.line < lines.length) :
    insertFromBelow written lines = withComments written 0 lines := by
  rw [insertFromBelow, foldl_putAbove (List.pairwise_mergeSort isBelow_trans isBelow_total written)
    fun entry member => inside entry (List.mem_mergeSort.mp member)]
  exact withComments_congr (fun row => by rw [commentsAt, commentsAt, filter_mergeSort_isBelow]) 0 lines

/-! ### Documented lines -/

/-- The lines of a text from the one with number `row` on, each below its comments. -/
def documentedFrom (written : List (FunctionSite × String)) (row : Nat) (text : List Char) : List Char :=
  Text.joinLines (withComments written row (Text.lines text)) ++
    if text.getLast? = some '\n' then ['\n'] else []

theorem toList_insertComments {source : String} {written : List (FunctionSite × String)}
    (inside : ∀ entry ∈ written, entry.1.line < (Text.lines source.toList).length) :
    (insertComments source written).toList = documentedFrom written 0 source.toList := by
  rw [insertComments, String.toList_ofList, insertFromBelow_eq inside, documentedFrom]

section

variable (written : List (FunctionSite × String)) (row : Nat)

theorem joinLines_append_cons (above : List (List Char)) (line : List Char) (rest : List (List Char)) :
    Text.joinLines (above ++ line :: rest) = above.flatMap (· ++ ['\n']) ++ Text.joinLines (line :: rest) := by
  induction above with
  | nil => rfl
  | cons first others inductionHypothesis =>
    rw [List.cons_append, Text.joinLines_cons_of_ne_nil first (by simp), inductionHypothesis,
      List.flatMap_cons, List.append_assoc, List.append_assoc, List.singleton_append]

theorem documentedFrom_nil : documentedFrom written row [] = [] := rfl

theorem documentedFrom_last {line : List Char} (plain : '\n' ∉ line) (filled : line ≠ []) :
    documentedFrom written row line = (commentsAt row written).flatMap (· ++ ['\n']) ++ line := by
  have open' : line.getLast? ≠ some '\n' := fun last => plain (List.mem_of_getLast? last)
  rw [documentedFrom, Text.lines_of_notMem plain, if_neg (mt List.isEmpty_iff.mp filled), if_neg open',
    List.append_nil, withComments, withComments, joinLines_append_cons, Text.joinLines_singleton]

theorem documentedFrom_line {line : List Char} (plain : '\n' ∉ line) (rest : List Char) :
    documentedFrom written row (line ++ '\n' :: rest) =
      (commentsAt row written).flatMap (· ++ ['\n']) ++
        (Text.dropReturn line ++ '\n' :: documentedFrom written (row + 1) rest) := by
  rw [documentedFrom, Text.lines_append_lineFeed plain, withComments, joinLines_append_cons,
    List.append_assoc]
  refine congrArg (_ ++ ·) ?_
  by_cases more : rest = []
  · rw [more, List.getLast?_concat, if_pos rfl, documentedFrom_nil]
    exact congrArg (· ++ ['\n']) (Text.joinLines_singleton _)
  · have further : withComments written (row + 1) (Text.lines rest) ≠ [] := by
      obtain ⟨next, others, lines⟩ := List.exists_cons_of_ne_nil (Text.lines_ne_nil more)
      rw [lines, withComments]
      exact List.append_ne_nil_of_right_ne_nil _ (List.cons_ne_nil _ _)
    have ending : (line ++ '\n' :: rest).getLast? = rest.getLast? := by
      rw [List.getLast?_append_of_ne_nil _ (List.cons_ne_nil _ _), List.getLast?_cons_of_ne_nil more]
    rw [Text.joinLines_cons_of_ne_nil _ further, ending, documentedFrom, List.append_assoc,
      List.cons_append]

/-- All comments from a line on go into a text that starts there. -/
theorem isInsertedInto_documentedFrom (text : List Char) :
    IsInsertedInto ((List.range' row (Text.lines text).length).flatMap fun row => commentsAt row written)
      (withLineFeeds text) (documentedFrom written row text) := by
  induction text using Text.induction_lines generalizing row with
  | last line plain =>
    rw [withLineFeeds_of_notMem plain, Text.lines_of_notMem plain]
    by_cases filled : line = []
    · subst filled
      exact .done
    · have whole : IsInsertedInto [] line line := by
        simpa using IsInsertedInto.done.append line
      have above := whole.above (commentsAt row written)
      rw [List.append_nil] at above
      rw [if_neg (mt List.isEmpty_iff.mp filled), documentedFrom_last _ _ plain filled,
        List.length_singleton, List.range'_one, List.flatMap_singleton]
      exact above
  | more line rest plain inductionHypothesis =>
    rw [Text.lines_append_lineFeed plain, withLineFeeds_line plain, documentedFrom_line _ _ plain,
      List.length_cons, List.range'_succ, List.flatMap_cons]
    exact ((IsInsertedInto.kept '\n' (inductionHypothesis (row + 1))).append _).above _

end

/-! ### Sources -/

/-- The comments for the functions whose documentation was written. -/
def commentsOf (written : List (FunctionSite × String)) : List (List Char) :=
  written.map fun entry => DocBlock.commentChars entry.2.toList entry.1.indent.toList

/-- Comments above lines of a source are all inserted, each of them once. -/
theorem perm_commentsOf {written : List (FunctionSite × String)} {count : Nat}
    (inside : ∀ entry ∈ written, entry.1.line < count) :
    ((List.range' 0 count).flatMap fun row => commentsAt row written).Perm (commentsOf written) := by
  have sorted := @Keyed.flatMap_filter_perm _ _ _ (fun entry : FunctionSite × String => entry.1.line) _
    (List.nodup_range' (s := 0) (n := count)) written
  have all : (written.filter fun entry => entry.1.line ∈ List.range' 0 count) = written := by
    refine List.filter_eq_self.mpr fun entry there => decide_eq_true ?_
    exact List.mem_range'_1.mpr ⟨Nat.zero_le _, (Nat.zero_add count).symm ▸ inside entry there⟩
  rw [all] at sorted
  refine .trans (List.Perm.flatMap_left _ fun row _ => (List.reverse_perm _).map _) ?_
  rw [← List.map_flatMap]
  refine (List.Perm.trans (.of_eq ?_) sorted).map _
  exact List.flatMap_congr fun row _ => List.filter_congr fun entry _ => Bool.beq_eq_decide_eq _ _

/-- What was written was written for one of the functions that were asked for. -/
theorem mem_of_mem_writtenOf {results : List (FunctionSite × Outcome)} {entry : FunctionSite × String}
    (there : entry ∈ writtenOf results) : entry.1 ∈ results.map Prod.fst := by
  obtain ⟨⟨site, outcome⟩, inside, found⟩ := List.mem_filterMap.mp there
  obtain ⟨text, -, rfl⟩ := Option.map_eq_some_iff.mp found
  exact List.mem_map_of_mem inside

section

variable {source : String} {results : List (FunctionSite × Outcome)}
  (inside : ∀ result ∈ results, result.1.line < (Text.lines source.toList).length)
include inside

theorem isInsertedInto_reportOn :
    ∃ blocks, blocks.Perm (commentsOf (writtenOf results)) ∧
      IsInsertedInto blocks (withLineFeeds source.toList) (reportOn source results).source.toList := by
  have lines : ∀ entry ∈ writtenOf results, entry.1.line < (Text.lines source.toList).length := by
    intro entry there
    obtain ⟨result, given, same⟩ := List.mem_map.mp (mem_of_mem_writtenOf there)
    exact same ▸ inside result given
  refine ⟨_, perm_commentsOf lines, ?_⟩
  rw [reportOn, toList_insertComments lines]
  exact isInsertedInto_documentedFrom (writtenOf results) 0 source.toList

/-- What the ending of a line loses is missing from the source for good. -/
theorem occursIn_eq_false_of_isInsertedInto {blocks : List (List Char)}
    (same : blocks.Perm (commentsOf (writtenOf results)))
    (inserted : IsInsertedInto blocks source.toList (reportOn source results).source.toList) :
    Text.occursIn ['\r', '\n'] source.toList = false := by
  obtain ⟨others, sameOthers, kept⟩ := isInsertedInto_reportOn inside
  have size := ((same.trans sameOthers.symm).map fun block => block.length + 1).sum_nat
  have fewer := Text.length_replaceAll_pair (show '\r' ≠ '\n' by decide) source.toList
  have left := inserted.length_eq
  have right := kept.length_eq
  unfold withLineFeeds at right
  rw [Text.occursIn_eq_false_iff]
  omega

/-- Whatever becomes of functions that start on lines of a source, deleting the new comments leaves its
lines, each with a line feed; so it leaves the source if and only if no line of it ends with a carriage
return and a line feed. -/
theorem exists_isInsertedInto_iff :
    (∃ blocks, blocks.Perm (commentsOf (writtenOf results)) ∧
      IsInsertedInto blocks (withLineFeeds source.toList) (reportOn source results).source.toList) ∧
    ((∃ blocks, blocks.Perm (commentsOf (writtenOf results)) ∧
        IsInsertedInto blocks source.toList (reportOn source results).source.toList) ↔
      Text.occursIn ['\r', '\n'] source.toList = false) := by
  have inserted := isInsertedInto_reportOn inside
  refine ⟨inserted, fun ⟨blocks, same, kept⟩ => occursIn_eq_false_of_isInsertedInto inside same kept,
    fun none => ?_⟩
  have same : withLineFeeds source.toList = source.toList :=
    Text.replaceAll_of_occurrences_eq_zero (Text.occursIn_eq_false_iff.mp none)
  rwa [same] at inserted

end

/-- What becomes of the functions of a source and its tree when the same is written for each of them. -/
def sameForAll (source : String) (tree : TypeScript.SyntaxTree) : List (FunctionSite × Outcome) :=
  (askAll (fun _ _ => .ok "Starts.") 1 [] (FunctionSite.undocumentedIn source tree)).1

/-- A source whose last line has no line feed. -/
def openSource : String := "// Runs.\n\nfunction main() \x7b\x7d"

/-- What is written for its function. -/
def openResults : List (FunctionSite × Outcome) :=
  sameForAll openSource (.node ⟨"program", true, none, 0, 28, 0, 2⟩ [
    .node ⟨"comment", true, none, 0, 8, 0, 0⟩ [],
    FunctionSite.functionTree "main" 10 28 2 2])

theorem exists_isInsertedInto_iff_openSource :
    (∀ result ∈ openResults, result.1.line < (Text.lines openSource.toList).length) ∧
      (reportOn openSource openResults).source =
        "// Runs.\n\n/**\n * Starts.\n */\nfunction main() \x7b\x7d" ∧
      ∃ blocks, blocks.Perm (commentsOf (writtenOf openResults)) ∧
        IsInsertedInto blocks openSource.toList (reportOn openSource openResults).source.toList := by
  have inside : ∀ result ∈ openResults, result.1.line < (Text.lines openSource.toList).length := by
    decide +kernel
  exact ⟨inside, by decide +kernel, (exists_isInsertedInto_iff inside).2.mpr (by decide)⟩

/-- A source whose lines end with a carriage return and a line feed. -/
def carriageSource : String := "function main() \x7b\r\n\x7d\r\n"

/-- What is written for its function. -/
def carriageResults : List (FunctionSite × Outcome) :=
  sameForAll carriageSource (.node ⟨"program", true, none, 0, 22, 0, 2⟩ [
    FunctionSite.functionTree "main" 0 20 0 1])

/-- Documenting a function changes the endings of the lines of its source. -/
theorem exists_line_ending_changed :
    (reportOn carriageSource carriageResults).source =
        "/**\n * Starts.\n */\nfunction main() \x7b\n\x7d\n" ∧
      ¬∃ blocks, blocks.Perm (commentsOf (writtenOf carriageResults)) ∧
        IsInsertedInto blocks carriageSource.toList
          (reportOn carriageSource carriageResults).source.toList := by
  refine ⟨by decide +kernel, fun ⟨blocks, same, inserted⟩ => ?_⟩
  exact absurd (occursIn_eq_false_of_isInsertedInto (by decide +kernel) same inserted) (by decide)

end ApiSurface.Docgen
