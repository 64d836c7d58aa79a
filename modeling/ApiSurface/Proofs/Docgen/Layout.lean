/-
This file proves what a report tells when the functions start on different lines, in their order. Each of
them is reported once. The source that was made has the lines of the old one, each below the comment of
the function that starts on it, and nothing else. So the functions do not get into each other's way: what
becomes of one of them decides whether its name stands at one place of the first list or of the second,
and what stands at one place of the source.
-/

import ApiSurface.Proofs.Docgen.Insertion
import ApiSurface.Proofs.Text.Trimmed

namespace ApiSurface.Docgen

/-! ### Entries -/

/-- Each function is reported once, in the order of the results: its name in the first list if its
documentation was written, and in the second, with the cause, if it was not. -/
inductive Accounts : List (FunctionSite × Outcome) → List String → List (String × DocgenFault) → Prop
  | done : Accounts [] [] []
  | documented {results : List (FunctionSite × Outcome)} {names : List String}
    {faults : List (String × DocgenFault)} (site : FunctionSite) (text : String)
    (rest : Accounts results names faults) :
    Accounts ((site, .ok text) :: results) (site.name :: names) faults
  | failed {results : List (FunctionSite × Outcome)} {names : List String}
    {faults : List (String × DocgenFault)} (site : FunctionSite) (fault : DocgenFault)
    (rest : Accounts results names faults) :
    Accounts ((site, .error fault) :: results) names ((site.name, fault) :: faults)

theorem accounts_reportOn (source : String) (results : List (FunctionSite × Outcome)) :
    Accounts results (reportOn source results).documented (reportOn source results).failed := by
  induction results with
  | nil => exact .done
  | cons result rest inductionHypothesis =>
    obtain ⟨site, text | fault⟩ := result
    · exact .failed site _ inductionHypothesis
    · exact .documented site _ inductionHypothesis

theorem documented_append (source : String) (first second : List (FunctionSite × Outcome)) :
    (reportOn source (first ++ second)).documented =
      (reportOn source first).documented ++ (reportOn source second).documented := by
  simp [reportOn, writtenOf]

theorem failed_append (source : String) (first second : List (FunctionSite × Outcome)) :
    (reportOn source (first ++ second)).failed =
      (reportOn source first).failed ++ (reportOn source second).failed := by
  simp [reportOn, failedOf]

/-! ### Lines -/

/-- The lines of the comment that goes above a function; none if its documentation was not written. -/
def commentLines : FunctionSite × Outcome → List (List Char)
  | (site, .ok text) => (DocBlock.commentChars text.toList site.indent.toList).splitOn '\n'
  | (_, .error _) => []

/-- A line, of which the number is known, below the comment of the function that starts on it. -/
def underComment (results : List (FunctionSite × Outcome)) (line : List Char × Nat) : List (List Char) :=
  (results.filter fun result => result.1.line == line.2).flatMap commentLines ++ [line.1]

/-- The lines of a source, each below the comment of the function that starts on it. -/
def laidOut (results : List (FunctionSite × Outcome)) (lines : List (List Char)) : List (List Char) :=
  lines.zipIdx.flatMap (underComment results)

theorem lineFeed_notMem_commentLines {result : FunctionSite × Outcome} {line : List Char}
    (member : line ∈ commentLines result) : '\n' ∉ line := by
  obtain ⟨site, text | fault⟩ := result
  · exact absurd member List.not_mem_nil
  · exact Text.newline_notMem_of_mem_splitOn member

/-- No line that was laid out holds a line feed, so these are the lines of the text that they make up. -/
theorem lineFeed_notMem_laidOut {results : List (FunctionSite × Outcome)} {lines : List (List Char)}
    (plain : ∀ line ∈ lines, '\n' ∉ line) : ∀ line ∈ laidOut results lines, '\n' ∉ line := by
  intro line member
  obtain ⟨own, inside, there⟩ := List.mem_flatMap.mp member
  rcases List.mem_append.mp there with comment | same
  · obtain ⟨result, -, written⟩ := List.mem_flatMap.mp comment
    exact lineFeed_notMem_commentLines written
  · rw [List.mem_singleton.mp same]
    exact plain own.1 (List.fst_mem_of_mem_zipIdx inside)

theorem joinLines_flatMap_splitOn (pieces : List (List Char)) :
    Text.joinLines (pieces.flatMap fun piece => piece.splitOn '\n') = Text.joinLines pieces := by
  have joined (piece : List Char) : Text.joinLines (piece.splitOn '\n') = piece :=
    List.intercalate_splitOn '\n'
  induction pieces with
  | nil => rfl
  | cons piece rest inductionHypothesis =>
    rw [List.flatMap_cons]
    by_cases more : rest = []
    · rw [more, List.flatMap_nil, List.append_nil, joined, Text.joinLines_singleton]
    · have further : rest.flatMap (fun piece => piece.splitOn '\n') ≠ [] := by
        obtain ⟨next, others, rfl⟩ := List.exists_cons_of_ne_nil more
        rw [List.flatMap_cons]
        exact List.append_ne_nil_of_left_ne_nil (List.splitOn_ne_nil _ _) _
      rw [Text.joinLines_append (List.splitOn_ne_nil _ _) further, joined, inductionHypothesis,
        Text.joinLines_cons_of_ne_nil _ more]

/-- At most one function starts on a line if all start on different ones. -/
theorem reverse_filter_line {written : List (FunctionSite × String)}
    (increasing : (written.map fun entry => entry.1.line).Pairwise (· < ·)) (row : Nat) :
    (written.filter fun entry => entry.1.line == row).reverse =
      written.filter fun entry => entry.1.line == row := by
  have apart := (List.pairwise_map.mp increasing).filter fun entry => entry.1.line == row
  have here := fun entry => List.of_mem_filter (p := fun entry : FunctionSite × String =>
    entry.1.line == row) (a := entry) (l := written)
  generalize written.filter (fun entry => entry.1.line == row) = kept at apart here
  match kept with
  | [] | [_] => rfl
  | first :: second :: others =>
    have one := here first (by simp)
    have other := here second (by simp)
    simp only [beq_iff_eq] at one other
    have less := List.rel_of_pairwise_cons apart List.mem_cons_self
    omega

theorem sublist_writtenOf (results : List (FunctionSite × Outcome)) :
    ((writtenOf results).map Prod.fst).Sublist (results.map Prod.fst) := by
  induction results with
  | nil => exact List.Sublist.slnil
  | cons result rest inductionHypothesis =>
    obtain ⟨site, fault | text⟩ := result
    · exact inductionHypothesis.cons site
    · exact inductionHypothesis.cons_cons site

theorem filter_writtenOf (results : List (FunctionSite × Outcome)) (row : Nat) :
    (writtenOf results).filter (fun entry => entry.1.line == row) =
      writtenOf (results.filter fun result => result.1.line == row) := by
  induction results with
  | nil => rfl
  | cons result rest inductionHypothesis =>
    obtain ⟨site, fault | text⟩ := result <;> by_cases here : site.line = row <;>
      simp_all [writtenOf, Except.toOption]

theorem flatMap_writtenOf (results : List (FunctionSite × Outcome)) :
    ((writtenOf results).flatMap fun entry =>
      (DocBlock.commentChars entry.2.toList entry.1.indent.toList).splitOn '\n') =
      results.flatMap commentLines := by
  induction results with
  | nil => rfl
  | cons result rest inductionHypothesis =>
    rw [List.flatMap_cons, ← inductionHypothesis]
    obtain ⟨site, fault | text⟩ := result <;> rfl

/-- The comments above a line are those of the functions that start on it. -/
theorem flatMap_commentsAt {results : List (FunctionSite × Outcome)}
    (increasing : (results.map fun result => result.1.line).Pairwise (· < ·)) (row : Nat) :
    ((commentsAt row (writtenOf results)).flatMap fun comment => comment.splitOn '\n') =
      (results.filter fun result => result.1.line == row).flatMap commentLines := by
  have written : ((writtenOf results).map fun entry => entry.1.line).Pairwise (· < ·) := by
    have kept := (sublist_writtenOf results).map FunctionSite.line
    rw [List.map_map, List.map_map] at kept
    exact increasing.sublist kept
  rw [commentsAt, reverse_filter_line written, filter_writtenOf, List.flatMap_map]
  exact flatMap_writtenOf _

theorem withComments_flatMap_splitOn {results : List (FunctionSite × Outcome)}
    (increasing : (results.map fun result => result.1.line).Pairwise (· < ·)) (row : Nat)
    {lines : List (List Char)} (plain : ∀ line ∈ lines, '\n' ∉ line) :
    ((withComments (writtenOf results) row lines).flatMap fun piece => piece.splitOn '\n') =
      (lines.zipIdx row).flatMap (underComment results) := by
  induction lines generalizing row with
  | nil => rfl
  | cons line rest inductionHypothesis =>
    obtain ⟨here, further⟩ := List.forall_mem_cons.mp plain
    rw [withComments, List.flatMap_append, List.flatMap_cons, flatMap_commentsAt increasing,
      List.splitOn_eq_singleton here, inductionHypothesis (row + 1) further, List.zipIdx_cons,
      List.flatMap_cons, underComment, List.append_assoc]

section

variable {source : String} {results : List (FunctionSite × Outcome)}
  (increasing : (results.map fun result => result.1.line).Pairwise (· < ·))
  (inside : ∀ result ∈ results, result.1.line < (Text.lines source.toList).length)

include increasing inside

/-- The source of a report is what was laid out. -/
theorem source_reportOn :
    (reportOn source results).source.toList =
      Text.joinLines (laidOut results (Text.lines source.toList)) ++
        if source.toList.getLast? = some '\n' then ['\n'] else [] := by
  have written : ∀ entry ∈ writtenOf results, entry.1.line < (Text.lines source.toList).length := by
    intro entry member
    obtain ⟨result, there, same⟩ := List.mem_map.mp (mem_of_mem_writtenOf member)
    exact same ▸ inside result there
  rw [reportOn, toList_insertComments written, documentedFrom, laidOut,
    ← withComments_flatMap_splitOn increasing 0 fun _ => Text.newline_notMem_of_mem_lines,
    joinLines_flatMap_splitOn]

end

/-! ### One function among others -/

section

variable {before after : List (FunctionSite × Outcome)} {site : FunctionSite}
  (apart : ∀ result ∈ before ++ after, result.1.line ≠ site.line)

/-- A function makes no difference to what is laid out elsewhere. -/
theorem underComment_of_ne {line : List Char × Nat} (elsewhere : line.2 ≠ site.line) (outcome : Outcome) :
    underComment (before ++ (site, outcome) :: after) line = underComment (before ++ after) line := by
  simp [underComment, Ne.symm elsewhere]

include apart

/-- Above its line only its own comment is laid out. -/
theorem underComment_own (outcome : Outcome) (line : List Char) :
    underComment (before ++ (site, outcome) :: after) (line, site.line) =
      commentLines (site, outcome) ++ [line] := by
  have none : (before ++ after).filter (fun result => result.1.line == site.line) = [] :=
    List.filter_eq_nil_iff.mpr fun result member => by simpa using apart result member
  rw [List.filter_append, List.append_eq_nil_iff] at none
  rw [underComment, List.filter_append, none.1, List.filter_cons_of_pos (by simp), none.2,
    List.nil_append, List.flatMap_singleton]

theorem exists_laidOut_eq {lines : List (List Char)} (inside : site.line < lines.length) :
    ∃ above own below, ∀ outcome, laidOut (before ++ (site, outcome) :: after) lines =
      above ++ commentLines (site, outcome) ++ own :: below := by
  have cut : lines.zipIdx = (lines.take site.line).zipIdx ++ (lines[site.line], site.line) ::
      (lines.drop (site.line + 1)).zipIdx (site.line + 1) := by
    conv_lhs => rw [← List.take_append_drop site.line lines, List.drop_eq_getElem_cons inside]
    rw [List.zipIdx_append, List.length_take_of_le inside.le, Nat.zero_add, List.zipIdx_cons]
  have above : ∀ line ∈ (lines.take site.line).zipIdx, line.2 ≠ site.line := by
    intro line member
    have less := List.snd_lt_of_mem_zipIdx member
    simp only [List.length_take] at less
    omega
  have below : ∀ line ∈ (lines.drop (site.line + 1)).zipIdx (site.line + 1), line.2 ≠ site.line := by
    intro line member
    have more := List.le_snd_of_mem_zipIdx member
    omega
  refine ⟨(lines.take site.line).zipIdx.flatMap (underComment (before ++ after)), lines[site.line],
    ((lines.drop (site.line + 1)).zipIdx (site.line + 1)).flatMap (underComment (before ++ after)),
    fun outcome => ?_⟩
  rw [laidOut, cut, List.flatMap_append, List.flatMap_cons, underComment_own apart,
    List.flatMap_congr fun line member => underComment_of_ne (above line member) outcome,
    List.flatMap_congr fun line member => underComment_of_ne (below line member) outcome]
  simp

end

/-- Whatever becomes of a function, all other functions are reported alike and have the same comments:
the lists and the text are made of parts that do not depend on it and of what is its own. -/
def IsIndependent (source : String) (before : List (FunctionSite × Outcome)) (site : FunctionSite)
    (after : List (FunctionSite × Outcome)) : Prop :=
  ∃ namesBefore namesAfter faultsBefore faultsAfter textAbove textBelow,
    Accounts before namesBefore faultsBefore ∧ Accounts after namesAfter faultsAfter ∧
      ∀ outcome, ∃ names faults, Accounts [(site, outcome)] names faults ∧
        (reportOn source (before ++ (site, outcome) :: after)).documented =
          namesBefore ++ names ++ namesAfter ∧
        (reportOn source (before ++ (site, outcome) :: after)).failed =
          faultsBefore ++ faults ++ faultsAfter ∧
        (reportOn source (before ++ (site, outcome) :: after)).source.toList =
          textAbove ++ (commentLines (site, outcome)).flatMap (· ++ ['\n']) ++ textBelow

/-- What becomes of one function does not change where the functions start. -/
theorem map_line_append (before after : List (FunctionSite × Outcome)) (site : FunctionSite)
    (outcome changed : Outcome) :
    (before ++ (site, outcome) :: after).map (fun result => result.1.line) =
      (before ++ (site, changed) :: after).map fun result => result.1.line := by
  simp

theorem isIndependent_of_append {source : String} {before after : List (FunctionSite × Outcome)}
    {site : FunctionSite} {given : Outcome}
    (increasing : ((before ++ (site, given) :: after).map fun result => result.1.line).Pairwise (· < ·))
    (inside : ∀ result ∈ before ++ (site, given) :: after,
      result.1.line < (Text.lines source.toList).length) :
    IsIndependent source before site after := by
  have apart : ∀ result ∈ before ++ after, result.1.line ≠ site.line := by
    rw [List.map_append, List.map_cons, List.pairwise_append, List.pairwise_cons] at increasing
    obtain ⟨-, ⟨later, -⟩, earlier⟩ := increasing
    intro result member
    rcases List.mem_append.mp member with there | there
    · exact Nat.ne_of_lt (earlier _ (List.mem_map_of_mem there) _ List.mem_cons_self)
    · exact Nat.ne_of_gt (later _ (List.mem_map_of_mem there))
  have here : site.line < (Text.lines source.toList).length :=
    inside (site, given) (List.mem_append_right _ List.mem_cons_self)
  obtain ⟨above, own, below, same⟩ := exists_laidOut_eq apart here
  refine ⟨_, _, _, _, above.flatMap (· ++ ['\n']), Text.joinLines (own :: below) ++
    (if source.toList.getLast? = some '\n' then ['\n'] else []), accounts_reportOn source before,
    accounts_reportOn source after, fun outcome => ⟨_, _, accounts_reportOn source [(site, outcome)], ?_⟩⟩
  have each : ∀ result ∈ before ++ (site, outcome) :: after,
      result.1.line < (Text.lines source.toList).length := by
    intro result member
    have line := List.mem_map_of_mem (f := fun result : FunctionSite × Outcome => result.1.line) member
    rw [map_line_append before after site outcome given] at line
    obtain ⟨other, there, started⟩ := List.mem_map.mp line
    exact started ▸ inside other there
  rw [← List.singleton_append, ← List.append_assoc, documented_append, documented_append, failed_append,
    failed_append, List.append_assoc before, List.singleton_append,
    source_reportOn (map_line_append before after site given outcome ▸ increasing) each, same,
    joinLines_append_cons, List.flatMap_append]
  exact ⟨rfl, rfl, by simp⟩

/-- If the functions start on different lines of the source, in their order, each of them is reported
once; the lines of the new source are those of the old one, each below the comment of the function that
starts on it; and what becomes of one function changes nothing for the others. -/
theorem reportOn_accounts {source : String} {results : List (FunctionSite × Outcome)}
    (increasing : (results.map fun result => result.1.line).Pairwise (· < ·))
    (inside : ∀ result ∈ results, result.1.line < (Text.lines source.toList).length) :
    Accounts results (reportOn source results).documented (reportOn source results).failed ∧
      (reportOn source results).source.toList =
        Text.joinLines (laidOut results (Text.lines source.toList)) ++
          (if source.toList.getLast? = some '\n' then ['\n'] else []) ∧
      (∀ line ∈ laidOut results (Text.lines source.toList), '\n' ∉ line) ∧
      ∀ before site outcome after, results = before ++ (site, outcome) :: after →
        IsIndependent source before site after := by
  refine ⟨accounts_reportOn source results, source_reportOn increasing inside,
    lineFeed_notMem_laidOut fun _ => Text.newline_notMem_of_mem_lines, ?_⟩
  rintro before site outcome after rfl
  exact isIndependent_of_append increasing inside

/-- A source with three functions, two of which have the same name. -/
def crowdedSource : String := "class A \x7b\n  a() \x7b\x7d\n\tb() \x7b\x7d\n\x7d\nfunction a() \x7b\x7d"

/-- The second of three functions, for which nothing was written. -/
def rejectedSite : FunctionSite := ⟨"b", 2, "\t", "\tb() \x7b\x7d"⟩

/-- What was written for the first of them. -/
def firstWritten : FunctionSite × Outcome :=
  (⟨"a", 1, "  ", "  a() \x7b\x7d"⟩, .ok "Starts.\n\nTags:\n    pet")

/-- What was written for the last of them. -/
def lastWritten : FunctionSite × Outcome := (⟨"a", 4, "", "function a() \x7b\x7d"⟩, .ok "Ends.")

/-- What became of the three functions. -/
def mixedResults : List (FunctionSite × Outcome) :=
  [firstWritten, (rejectedSite, .error (.api 400 "rejected")), lastWritten]

theorem reportOn_accounts_mixedResults :
    (mixedResults.map fun result => result.1.line).Pairwise (· < ·) ∧
      (∀ result ∈ mixedResults, result.1.line < (Text.lines crowdedSource.toList).length) ∧
      Accounts mixedResults ["a", "a"] [("b", .api 400 "rejected")] ∧
      (reportOn crowdedSource mixedResults).source =
        "class A \x7b\n  /**\n   * Starts.\n   *\n   * Tags:\n   *     pet\n   */\n  a() \x7b\x7d\n" ++
          "\tb() \x7b\x7d\n\x7d\n/**\n * Ends.\n */\nfunction a() \x7b\x7d" ∧
      IsIndependent crowdedSource [firstWritten] rejectedSite [lastWritten] := by
  have increasing : (mixedResults.map fun result => result.1.line).Pairwise (· < ·) := by decide
  have inside : ∀ result ∈ mixedResults, result.1.line < (Text.lines crowdedSource.toList).length := by
    decide
  obtain ⟨accounts, source, -, independent⟩ := reportOn_accounts increasing inside
  refine ⟨increasing, inside, accounts, ?_, independent _ _ _ _ rfl⟩
  rw [← String.toList_inj, source]
  decide +kernel

end ApiSurface.Docgen
