/-
This file proves for which functions a comment is missing. A function is passed over if the nearest line
above it that counts ends with the mark that closes comments. There the mark closes a comment that was
opened with two asterisks, or one that was opened with a single one, or it closes none, because it stands
in a line comment or in a text. Only the first makes the function a documented one; the other two are
mistakes, and there are no more. Which comments there are is for the parser to say.
-/

import ApiSurface.Docgen.Site
import ApiSurface.Proofs.Text.Line
import ApiSurface.Proofs.Text.Search
import ApiSurface.Proofs.Text.Trimmed

namespace ApiSurface.FunctionSite

open TypeScript (Place SyntaxNode SyntaxTree)

/-! ### The text above a function -/

/-- The mark that closes a comment. -/
def closingMark : List Char := ['*', '/']

/-- Whether a line counts above a function: it is neither blank nor a decorator. -/
def counts (line : List Char) : Bool :=
  !(Text.trim line).isEmpty && (Text.trim line).head? != some '@'

/-- The lines above a function as one text, up to the end of the nearest of them that counts. -/
def textAbove (before : List (List Char)) : List Char :=
  Text.trimEnd (Text.joinLines (before.rdropWhile fun line => !counts line))

/-- What stands in front of a character that a mark does not have makes no difference to the mark at the
end. -/
theorem suffix_append_cons_iff {mark : List Char} {border : Char} (apart : border ∉ mark)
    (front text : List Char) : mark <:+ front ++ border :: text ↔ mark <:+ text := by
  have absent (before : List Char) : mark ≠ before ++ border :: text := by
    rintro rfl
    simp at apart
  induction front with
  | nil => exact List.suffix_cons_iff.trans (or_iff_right (absent []))
  | cons first rest inductionHypothesis =>
    exact (List.suffix_cons_iff.trans (or_iff_right (absent (first :: rest)))).trans inductionHypothesis

theorem suffix_append_iff {mark front : List Char} (apart : ∀ character ∈ front, character ∉ mark)
    (text : List Char) : mark <:+ front ++ text ↔ mark <:+ text := by
  rcases List.eq_nil_or_concat front with rfl | ⟨before, last, rfl⟩
  · rfl
  · rw [List.concat_eq_append, List.append_assoc]
    exact suffix_append_cons_iff (apart last (by simp)) before text

theorem notMem_closingMark_of_blank {character : Char} (blank : Text.isBlank character = true) :
    character ∉ closingMark := by
  intro member
  simp only [closingMark, List.mem_cons, List.not_mem_nil, or_false] at member
  rcases member with rfl | rfl <;> exact absurd blank (by decide)

/-- A line that is not blank ends with the mark exactly if the lines up to it do. -/
theorem closingMark_suffix_iff {line : List Char} (filled : Text.trim line ≠ [])
    (above : List (List Char)) :
    closingMark <:+ Text.trimEnd (Text.joinLines (above ++ [line])) ↔ closingMark <:+ Text.trim line := by
  have cut : Text.trimEnd line = line.takeWhile Text.isBlank ++ Text.trim line := by
    conv_lhs => rw [← List.takeWhile_append_dropWhile (p := Text.isBlank) (l := line)]
    exact (Text.trimEnd_append _ _).trans (if_neg (mt List.isEmpty_iff.mp filled))
  have own : closingMark <:+ Text.trimEnd line ↔ closingMark <:+ Text.trim line := by
    rw [cut]
    exact suffix_append_iff (fun _ member => notMem_closingMark_of_blank (List.mem_takeWhile_imp member)) _
  by_cases alone : above = []
  · rw [alone, List.nil_append, Text.joinLines_singleton, own]
  · have ended : Text.trimEnd line ≠ [] := by
      rw [cut]
      exact List.append_ne_nil_of_right_ne_nil _ filled
    have feed : Text.trimEnd ('\n' :: line) = '\n' :: Text.trimEnd line :=
      (Text.trimEnd_append ['\n'] line).trans (if_neg (mt List.isEmpty_iff.mp ended))
    rw [Text.joinLines_append alone (List.cons_ne_nil _ _), Text.joinLines_singleton, Text.trimEnd_append,
      feed, if_neg (by simp), suffix_append_cons_iff (by decide), own]

/-- A function is passed over if the text above it ends with the mark. -/
theorem hasComment_iff (before : List (List Char)) :
    hasComment before = true ↔ closingMark <:+ textAbove before := by
  induction before using List.reverseRecOn with
  | nil => simp [hasComment, textAbove, Text.joinLines, Text.trimEnd, Text.dropEndWhile, closingMark]
  | append_singleton above line inductionHypothesis =>
    by_cases here : counts line = true
    · have filled : Text.trim line ≠ [] := fun none => by simp [counts, none] at here
      have found : hasComment (above ++ [line]) =
          (Text.dropTail? closingMark (Text.trim line)).isSome := by
        rw [counts] at here
        simp only [hasComment, List.reverse_concat, List.map_cons, List.find?_cons, here]
        rfl
      rw [found, Text.isSome_dropTail?_iff, textAbove, List.rdropWhile_concat_neg _ _ _ (by simp [here]),
        closingMark_suffix_iff filled]
    · have skipped : hasComment (above ++ [line]) = hasComment above := by
        rw [counts, Bool.not_eq_true] at here
        simp only [hasComment, List.reverse_concat, List.map_cons, List.find?_cons, here]
      rw [skipped, inductionHypothesis, textAbove, textAbove,
        List.rdropWhile_concat_pos _ _ _ (by simp [here])]

/-- Whether lines end with a comment does not depend on the blanks at their ends. -/
theorem hasComment_congr {before others : List (List Char)}
    (same : before.map Text.trim = others.map Text.trim) : hasComment before = hasComment others := by
  rw [hasComment, hasComment, List.map_reverse, List.map_reverse, same]

theorem map_trim_linesOfPieces {pieces : List (List Char)} {row : Nat}
    (there : row ≤ (Text.linesOfPieces pieces).length) :
    ((Text.linesOfPieces pieces).take row).map Text.trim = (pieces.take row).map Text.trim := by
  fun_induction Text.linesOfPieces pieces generalizing row with
  | case1 => rfl
  | case2 last empty =>
    obtain rfl := Nat.le_zero.mp there
    rfl
  | case3 last filled => rfl
  | case4 line next rest inductionHypothesis =>
    cases row with
    | zero => rfl
    | succ row =>
      rw [List.take_succ_cons, List.take_succ_cons, List.map_cons, List.map_cons,
        Text.trim_dropReturn, inductionHypothesis (Nat.le_of_succ_le_succ there)]

/-- The text of a source above one of its lines, up to the end of the nearest line that counts. -/
def textBefore (source : String) (row : Nat) : List Char :=
  textAbove ((source.toList.splitOn '\n').take row)

theorem hasComment_linesAbove_iff {source : String} {row : Nat}
    (there : row ≤ (Text.lines source.toList).length) :
    hasComment (linesAbove (Text.lines source.toList) row) = true ↔
      closingMark <:+ textBefore source row := by
  rw [linesAbove, if_pos there, textBefore, ← hasComment_iff, Bool.coe_iff_coe]
  refine hasComment_congr ?_
  rw [Text.lines] at there ⊢
  rw [map_trim_linesOfPieces there, List.splitOn_eq_splitOnP]

theorem isPrefix_textBefore (source : String) (row : Nat) : textBefore source row <+: source.toList := by
  have lines : (((source.toList.splitOn '\n').take row).rdropWhile fun line => !counts line) <+:
      source.toList.splitOn '\n' :=
    (List.rdropWhile_prefix _ _).trans (List.take_prefix _ _)
  have whole : Text.joinLines (source.toList.splitOn '\n') = source.toList :=
    List.intercalate_splitOn '\n'
  rw [textBefore, textAbove, Text.trimEnd, Text.dropEndWhile_eq_rdropWhile]
  refine (List.rdropWhile_prefix _ _).trans ?_
  have joined := Text.joinLines_prefix lines
  rwa [whole] at joined

/-! ### Comments -/

/-- The text above a line of a source ends with a block comment of its tree, and this is between the
marks that open and close it. -/
def EndsWithComment (source : String) (tree : SyntaxTree) (row : Nat) (inside : List Char) : Prop :=
  ∃ place ∈ tree.places, place.tree.own.kind = "comment" ∧
    place.tree.own.stop = Text.byteLength (textBefore source row) ∧
    Text.cutBytes? place.tree.own.start place.tree.own.stop source.toList =
      some ('/' :: '*' :: (inside ++ closingMark))

/-- The text above a line ends with a comment that was opened with two asterisks. -/
def EndsWithDocumentation (source : String) (tree : SyntaxTree) (row : Nat) : Prop :=
  ∃ inside, EndsWithComment source tree row ('*' :: inside)

/-- The text above a line ends with a comment, but not with one that was opened with two asterisks. -/
def EndsWithPlainComment (source : String) (tree : SyntaxTree) (row : Nat) : Prop :=
  (∃ inside, EndsWithComment source tree row inside) ∧ ¬EndsWithDocumentation source tree row

/-- The text above a line ends with the mark that closes comments where no comment ends. -/
def EndsWithBareMark (source : String) (tree : SyntaxTree) (row : Nat) : Prop :=
  closingMark <:+ textBefore source row ∧ ¬∃ inside, EndsWithComment source tree row inside

section

variable {source : String} {tree : SyntaxTree} {row : Nat}

/-- A text that ends with a comment ends with the mark that closes it. -/
theorem EndsWithComment.closingMark_suffix {inside : List Char}
    (ends : EndsWithComment source tree row inside) : closingMark <:+ textBefore source row := by
  obtain ⟨place, -, -, stop, cut⟩ := ends
  obtain ⟨before, after, whole, length⟩ := Text.cutBytes?_eq_some cut
  have front : before ++ '/' :: '*' :: (inside ++ closingMark) <+: source.toList :=
    ⟨after, whole.symm⟩
  rw [← Text.eq_of_byteLength_eq front (isPrefix_textBefore source row) (length.trans stop)]
  exact ⟨before ++ '/' :: '*' :: inside, by simp⟩

/-- The texts of the comments of a tree. -/
def commentTexts (source : String) (tree : SyntaxTree) : List (Option (List Char)) :=
  (tree.places.filter fun place => place.tree.own.kind == "comment").map fun place =>
    Text.cutBytes? place.tree.own.start place.tree.own.stop source.toList

theorem EndsWithComment.mem_commentTexts {inside : List Char}
    (ends : EndsWithComment source tree row inside) :
    some ('/' :: '*' :: (inside ++ closingMark)) ∈ commentTexts source tree := by
  obtain ⟨place, there, kind, -, cut⟩ := ends
  exact List.mem_map.mpr ⟨place, List.mem_filter.mpr ⟨there, beq_iff_eq.mpr kind⟩, cut⟩

/-- Where the mark stands at the end of a text it closes a comment of one kind or the other, or none. -/
theorem closingMark_suffix_cases (source : String) (tree : SyntaxTree) (row : Nat) :
    closingMark <:+ textBefore source row ↔
      EndsWithDocumentation source tree row ∨ EndsWithPlainComment source tree row ∨
        EndsWithBareMark source tree row := by
  constructor
  · intro mark
    by_cases closing : ∃ inside, EndsWithComment source tree row inside
    · by_cases doubled : EndsWithDocumentation source tree row
      · exact .inl doubled
      · exact .inr (.inl ⟨closing, doubled⟩)
    · exact .inr (.inr ⟨mark, closing⟩)
  · rintro (⟨inside, ends⟩ | ⟨⟨inside, ends⟩, -⟩ | ⟨mark, -⟩)
    · exact ends.closingMark_suffix
    · exact ends.closingMark_suffix
    · exact mark

/-- A comment that was opened with two asterisks is no other comment and no bare mark. -/
theorem EndsWithDocumentation.not_other (documentation : EndsWithDocumentation source tree row) :
    ¬EndsWithPlainComment source tree row ∧ ¬EndsWithBareMark source tree row := by
  refine ⟨fun plain => plain.2 documentation, fun bare => bare.2 ?_⟩
  obtain ⟨inside, ends⟩ := documentation
  exact ⟨'*' :: inside, ends⟩

end

/-! ### Reports -/

/-- Of the functions on one line the first is kept. -/
theorem exists_mem_onePerLine {sites : List FunctionSite} {site : FunctionSite} (there : site ∈ sites)
    {previous : Option Nat} (fresh : previous ≠ some site.line) :
    ∃ kept ∈ onePerLine previous sites, kept.line = site.line := by
  induction sites generalizing previous with
  | nil => exact absurd there List.not_mem_nil
  | cons first rest inductionHypothesis =>
    rw [onePerLine]
    by_cases repeated : previous = some first.line
    · rw [if_pos repeated]
      rcases List.mem_cons.mp there with rfl | later
      · exact absurd repeated fresh
      · exact inductionHypothesis later fresh
    · rw [if_neg repeated]
      by_cases same : first.line = site.line
      · exact ⟨first, List.mem_cons_self, same⟩
      · rcases List.mem_cons.mp there with rfl | later
        · exact absurd rfl same
        · obtain ⟨kept, inside, line⟩ := inductionHypothesis later
            fun found => same (Option.some.inj found)
          exact ⟨kept, List.mem_cons_of_mem _ inside, line⟩

theorem mem_of_mem_onePerLine {previous : Option Nat} {sites : List FunctionSite} {site : FunctionSite}
    (there : site ∈ onePerLine previous sites) : site ∈ sites := by
  induction sites generalizing previous with
  | nil => exact there
  | cons first rest inductionHypothesis =>
    unfold onePerLine at there
    split at there
    · exact List.mem_cons_of_mem _ (inductionHypothesis there)
    · rcases List.mem_cons.mp there with rfl | later
      · exact List.mem_cons_self
      · exact List.mem_cons_of_mem _ (inductionHypothesis later)

/-- A node has a site if it declares a function and the lines above end with no comment. -/
theorem exists_ofPlace?_iff {source : String} {lines : List (List Char)} {place : Place} {row : Nat} :
    (∃ site, ofPlace? source lines place = some site ∧ site.line = row) ↔
      ∃ name first, declared? source place = some (name, first) ∧ first.row = row ∧
        hasComment (linesAbove lines row) = false := by
  unfold ofPlace?
  cases declared? source place with
  | none =>
    exact iff_of_false (fun ⟨_, found, _⟩ => by cases found) fun ⟨_, _, found, _⟩ => by cases found
  | some declared =>
    obtain ⟨name, first⟩ := declared
    cases documented : hasComment (linesAbove lines first.row) with
    | true =>
      refine iff_of_false ?_ ?_
      · rintro ⟨_, found, _⟩
        simp [documented] at found
      · rintro ⟨_, _, same, rfl, undocumented⟩
        obtain ⟨-, rfl⟩ := Prod.mk.inj (Option.some.inj same)
        exact Bool.false_ne_true (undocumented.symm.trans documented)
    | false =>
      simp only [Option.bind_eq_bind, Option.bind_some, documented]
      constructor
      · rintro ⟨site, found, rfl⟩
        obtain rfl := Option.some.inj found
        exact ⟨name, first, rfl, rfl, documented⟩
      · rintro ⟨_, _, same, rfl, -⟩
        obtain ⟨rfl, rfl⟩ := Prod.mk.inj (Option.some.inj same)
        exact ⟨_, rfl, rfl⟩

/-- Of the functions that start on a line one is reported, unless the line is passed over. -/
theorem exists_mem_undocumentedIn_iff {source : String} {tree : SyntaxTree} {place : Place}
    (there : place ∈ tree.places) {name : String} {first : SyntaxNode}
    (declared : declared? source place = some (name, first)) :
    (∃ site ∈ undocumentedIn source tree, site.line = first.row) ↔
      hasComment (linesAbove (Text.lines source.toList) first.row) = false := by
  constructor
  · rintro ⟨site, kept, line⟩
    obtain ⟨other, -, found⟩ := List.mem_filterMap.mp (mem_of_mem_onePerLine kept)
    obtain ⟨-, -, -, -, none⟩ := exists_ofPlace?_iff.mp ⟨site, found, line⟩
    exact none
  · intro none
    obtain ⟨site, found, line⟩ := exists_ofPlace?_iff.mpr ⟨name, first, declared, rfl, none⟩
    obtain ⟨kept, inside, same⟩ :=
      exists_mem_onePerLine (List.mem_filterMap.mpr ⟨place, there, found⟩) (Option.some_ne_none _).symm
    exact ⟨kept, inside, same.trans line⟩

/-- A line below a comment that was opened with two asterisks is passed over. That no other is, is true
of a line exactly if the text above it ends neither with another comment nor with a bare mark. Every
function that a tree of a source declares on a line is reported, itself or by another one on this line,
unless the text above it ends with one of the three. -/
theorem undocumented_exactly (source : String) (tree : SyntaxTree) :
    (∀ row ≤ (Text.lines source.toList).length,
      (EndsWithDocumentation source tree row →
        hasComment ((Text.lines source.toList).take row) = true) ∧
      ((hasComment ((Text.lines source.toList).take row) = true →
          EndsWithDocumentation source tree row) ↔
        ¬EndsWithPlainComment source tree row ∧ ¬EndsWithBareMark source tree row)) ∧
    ∀ place ∈ tree.places, ∀ name first, declared? source place = some (name, first) →
      first.row ≤ (Text.lines source.toList).length →
      ((∃ site ∈ undocumentedIn source tree, site.line = first.row) ↔
        ¬EndsWithDocumentation source tree first.row ∧ ¬EndsWithPlainComment source tree first.row ∧
          ¬EndsWithBareMark source tree first.row) := by
  have passed {row : Nat} (there : row ≤ (Text.lines source.toList).length) :
      hasComment (linesAbove (Text.lines source.toList) row) = true ↔
        EndsWithDocumentation source tree row ∨ EndsWithPlainComment source tree row ∨
          EndsWithBareMark source tree row :=
    (hasComment_linesAbove_iff there).trans (closingMark_suffix_cases source tree row)
  refine ⟨fun row there => ?lines, fun place there name first declared onLine => ?reported⟩
  case lines =>
    have above : (Text.lines source.toList).take row = linesAbove (Text.lines source.toList) row :=
      (if_pos there).symm
    rw [above]
    refine ⟨fun documentation => (passed there).mpr (.inl documentation), ⟨fun right => ?_, ?_⟩⟩
    · by_contra other
      rw [not_and_or, not_not, not_not] at other
      have wrong := (right ((passed there).mpr (.inr other))).not_other
      exact other.elim wrong.1 wrong.2
    · rintro ⟨noPlain, noBare⟩ given
      rcases (passed there).mp given with documentation | plain | bare
      · exact documentation
      · exact absurd plain noPlain
      · exact absurd bare noBare
  case reported =>
    rw [exists_mem_undocumentedIn_iff there declared, ← Bool.not_eq_true, passed onLine, not_or, not_or]

/-- The tree of a function without parameters, where it starts and where its body ends. -/
def functionTree (name : String) (start stop row lastRow : Nat) : SyntaxTree :=
  let afterName := start + 9 + Text.byteLength name.toList
  let head (kind : String) (isNamed : Bool) (field? : Option String) (first last : Nat) : SyntaxNode :=
    ⟨kind, isNamed, field?, first, last, row, row⟩
  .node ⟨"function_declaration", true, none, start, stop, row, lastRow⟩ [
    .node (head "function" false none start (start + 8)) [],
    .node (head "identifier" true (some "name") (start + 9) afterName) [],
    .node (head "formal_parameters" true (some "parameters") afterName (afterName + 2)) [
      .node (head "(" false none afterName (afterName + 1)) [],
      .node (head ")" false none (afterName + 1) (afterName + 2)) []],
    .node ⟨"statement_block", true, some "body", afterName + 3, stop, row, lastRow⟩ [
      .node (head "\x7b" false none (afterName + 3) (afterName + 4)) [],
      .node ⟨"\x7d", false, none, stop - 1, stop, lastRow, lastRow⟩ []]]

/-- A source with a function on the line below a comment. -/
def sourceBelow (comment : String) : String := comment ++ "\nfunction f() \x7b\x7d\n"

/-- The tree of such a source, where the comment is on one line. -/
def treeBelow (comment : String) : SyntaxTree :=
  let length := Text.byteLength comment.toList
  .node ⟨"program", true, none, 0, length + 17, 0, 2⟩ [
    .node ⟨"comment", true, none, 0, length, 0, 0⟩ [],
    functionTree "f" (length + 1) (length + 16) 1 1]

/-- The place of the function in the tree. -/
def placeBelow? (comment : String) : Option Place :=
  (treeBelow comment).places.find? fun place => place.tree.own.kind == "function_declaration"

theorem undocumented_exactly_helper : ∃ place ∈ (treeBelow "/** Helper. */").places,
    ∃ first, declared? (sourceBelow "/** Helper. */") place = some ("f", first) ∧ first.row = 1 ∧
      1 ≤ (Text.lines (sourceBelow "/** Helper. */").toList).length ∧
      EndsWithDocumentation (sourceBelow "/** Helper. */") (treeBelow "/** Helper. */") 1 ∧
      hasComment ((Text.lines (sourceBelow "/** Helper. */").toList).take 1) = true ∧
      ¬∃ site ∈ undocumentedIn (sourceBelow "/** Helper. */") (treeBelow "/** Helper. */"),
        site.line = 1 := by
  have computed : ((placeBelow? "/** Helper. */").bind fun place =>
      (declared? (sourceBelow "/** Helper. */") place).map fun found => (found.1, found.2.row)) =
        some ("f", 1) := by decide +kernel
  obtain ⟨place, found, further⟩ := Option.bind_eq_some_iff.mp computed
  obtain ⟨⟨name, first⟩, declared, parts⟩ := Option.map_eq_some_iff.mp further
  obtain ⟨rfl, row⟩ := Prod.mk.inj parts
  have there := List.mem_of_find?_eq_some found
  have onLine : 1 ≤ (Text.lines (sourceBelow "/** Helper. */").toList).length := by decide +kernel
  have documentation :
      EndsWithDocumentation (sourceBelow "/** Helper. */") (treeBelow "/** Helper. */") 1 :=
    ⟨" Helper. ".toList, _, List.mem_cons_of_mem _ List.mem_cons_self, rfl, by decide +kernel,
      by decide +kernel⟩
  obtain ⟨lines, reported⟩ :=
    undocumented_exactly (sourceBelow "/** Helper. */") (treeBelow "/** Helper. */")
  refine ⟨place, there, first, declared, row, onLine, documentation, (lines 1 onLine).1 documentation, ?_⟩
  have exactly := reported place there "f" first declared (row ▸ onLine)
  rw [row] at exactly
  exact fun site => (exactly.mp site).1 documentation

/-- The function on the line below a comment is declared, but passed over, though the text above it does
not end with documentation. -/
def HidesFunction (comment : String) : Prop :=
  (treeBelow comment).places.filterMap
      (fun place => (declared? (sourceBelow comment) place).map Prod.fst) = ["f"] ∧
    undocumentedIn (sourceBelow comment) (treeBelow comment) = [] ∧
    hasComment ((Text.lines (sourceBelow comment).toList).take 1) = true ∧
    ¬EndsWithDocumentation (sourceBelow comment) (treeBelow comment) 1

/-- A comment that is the only one of its tree is no documentation unless it starts like that. -/
theorem not_endsWithDocumentation {comment : String} {row : Nat}
    (alone : commentTexts (sourceBelow comment) (treeBelow comment) = [some comment.toList])
    (single : ¬"/**".toList <+: comment.toList) :
    ¬EndsWithDocumentation (sourceBelow comment) (treeBelow comment) row := by
  rintro ⟨inside, ends⟩
  have same := ends.mem_commentTexts
  rw [alone, List.mem_singleton] at same
  exact single ⟨inside ++ closingMark, Option.some.inj same⟩

/-- A comment that is no documentation, or only the mark in a line comment, hides the function below. -/
theorem undocumented_not_reported : HidesFunction "/* Helper. */" ∧ HidesFunction "// a */" := by
  constructor
  · exact ⟨by decide +kernel, by decide +kernel, by decide +kernel,
      not_endsWithDocumentation (by decide +kernel) (by decide +kernel)⟩
  · exact ⟨by decide +kernel, by decide +kernel, by decide +kernel,
      not_endsWithDocumentation (by decide +kernel) (by decide +kernel)⟩

end ApiSurface.FunctionSite
