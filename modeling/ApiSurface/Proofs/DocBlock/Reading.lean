/-
This file proves that whatever the text is, the block that is read from it is well formed. Each part is
asked for what its reader takes from a line: the head of an entry is a name, perhaps a type in
parentheses, and a colon; the text of an entry is folded, so it is trimmed and on one line; a tag is
trimmed after the cut; and the summary is trimmed as a whole, which takes lines away at its ends and
leaves the others as they are. Nothing is ever added, so no line feed comes in. What is read from a line
below a header is also bound by what that line is not, another header, so each entry keeps its line.
-/

import ApiSurface.Proofs.DocBlock.Layout
import ApiSurface.Proofs.Keyed
import ApiSurface.Proofs.Text.Trimmed

namespace ApiSurface.DocBlock

/-! ### Heads -/

theorem isName_of_leadingName? {continues : Char → Bool} {line name rest : List Char}
    (read : leadingName? continues line = some (name, rest)) :
    IsName continues name ∧ line = name ++ rest := by
  cases line with
  | nil => exact absurd read.symm (Option.some_ne_none _)
  | cons first others =>
    rw [leadingName?] at read
    split at read
    · next starts =>
      obtain ⟨rfl, rfl⟩ := Prod.mk.inj (Option.some.inj read)
      refine ⟨⟨first, _, rfl, starts, fun _ member => List.mem_takeWhile_imp member⟩, ?_⟩
      rw [List.cons_append, List.takeWhile_append_dropWhile]
    · exact absurd read.symm (Option.some_ne_none _)

theorem exists_of_afterColon? {rest text : List Char} (read : afterColon? rest = some text) :
    ∃ tail, rest = ':' :: tail ∧ text = Text.trim tail := by
  unfold afterColon? at read
  split at read
  · exact ⟨[], rfl, (Option.some.inj read).symm⟩
  · next next tail =>
    split at read
    · next blank =>
      exact ⟨next :: tail, rfl, by rw [Text.trim_cons_of_blank blank, ← Option.some.inj read]⟩
    · exact absurd read.symm (Option.some_ne_none _)
  · exact absurd read.symm (Option.some_ne_none _)

theorem eq_append_trimStart (text : List Char) :
    text = text.takeWhile Text.isBlank ++ Text.trimStart text :=
  List.takeWhile_append_dropWhile.symm

/-- A text that goes on behind a closing parenthesis with a colon. -/
theorem exists_of_closing {inner text : List Char}
    (read : afterColon? (Text.trimStart ((inner.dropWhile (· != ')')).drop 1)) = some text) :
    ∃ after tail, inner = inner.takeWhile (· != ')') ++ ')' :: after ++ ':' :: tail ∧
      text = Text.trim tail := by
  cases closing : inner.dropWhile (· != ')') with
  | nil =>
    rw [closing] at read
    exact absurd read.symm (Option.some_ne_none _)
  | cons stop rest =>
    have stops := List.head?_dropWhile_not (· != ')') inner
    rw [closing] at stops read
    obtain rfl : stop = ')' := by simpa using stops
    obtain ⟨tail, started, ends⟩ := exists_of_afterColon? read
    refine ⟨rest.takeWhile Text.isBlank, tail, ?_, ends⟩
    conv_lhs => rw [← List.takeWhile_append_dropWhile (p := (· != ')')) (l := inner), closing,
      eq_append_trimStart rest]
    rw [List.drop_one, List.tail_cons] at started
    rw [started, List.append_assoc, List.cons_append]

/-- A line that is read as the head of an argument starts with the name and goes on behind a colon. What
stands in between holds the type, if there is one. -/
theorem exists_of_argumentHead? {line name hint text : List Char}
    (read : argumentHead? line = some ((name, hint), text)) :
    IsName Text.continuesName name ∧ ')' ∉ hint ∧ Text.trim hint = hint ∧
      ∃ inner tail, line = name ++ inner ++ ':' :: tail ∧ text = Text.trim tail ∧
        (hint = [] ∨ ∃ before written after,
          inner = before ++ '(' :: written ++ ')' :: after ∧ hint = Text.trim written) := by
  unfold argumentHead? at read
  obtain ⟨⟨found, rest⟩, leading, further⟩ := Option.bind_eq_some_iff.mp read
  obtain ⟨named, whole⟩ := isName_of_leadingName? leading
  have blanks := eq_append_trimStart rest
  dsimp only at further
  split at further
  · next inner opened =>
    rw [List.span_eq_takeWhile_dropWhile] at further
    obtain ⟨behind, colon, same⟩ := Option.map_eq_some_iff.mp further
    obtain ⟨⟨rfl, rfl⟩, rfl⟩ := (Prod.mk.inj same).imp_left Prod.mk.inj
    obtain ⟨after, tail, closed, ends⟩ := exists_of_closing colon
    refine ⟨named, fun inside => ?_, Text.trim_trim _,
      rest.takeWhile Text.isBlank ++ '(' :: inner.takeWhile (· != ')') ++ ')' :: after, tail, ?_, ends,
      .inr ⟨_, _, _, rfl, rfl⟩⟩
    · exact absurd (List.mem_takeWhile_imp (Text.mem_of_mem_trim inside)) (by decide)
    · conv_lhs => rw [whole, blanks, opened, closed]
      simp only [List.append_assoc, List.cons_append]
  · obtain ⟨behind, colon, same⟩ := Option.map_eq_some_iff.mp further
    obtain ⟨⟨rfl, rfl⟩, rfl⟩ := (Prod.mk.inj same).imp_left Prod.mk.inj
    obtain ⟨tail, started, ends⟩ := exists_of_afterColon? colon
    refine ⟨named, List.not_mem_nil, rfl, rest.takeWhile Text.isBlank, tail, ?_, ends, .inl rfl⟩
    rw [whole, List.append_assoc, ← started, ← blanks]

theorem exists_of_failureHead? {line kind text : List Char}
    (read : failureHead? line = some (kind, text)) :
    IsName continuesKind kind ∧ ∃ inner tail,
      line = kind ++ inner ++ ':' :: tail ∧ text = Text.trim tail ∧
        ∀ character ∈ inner, Text.isBlank character = true := by
  unfold failureHead? at read
  obtain ⟨⟨found, rest⟩, leading, further⟩ := Option.bind_eq_some_iff.mp read
  obtain ⟨behind, colon, same⟩ := Option.map_eq_some_iff.mp further
  obtain ⟨rfl, rfl⟩ := Prod.mk.inj same
  obtain ⟨named, whole⟩ := isName_of_leadingName? leading
  obtain ⟨tail, started, ends⟩ := exists_of_afterColon? colon
  refine ⟨named, rest.takeWhile Text.isBlank, tail, ?_, ends, fun _ => List.mem_takeWhile_imp⟩
  rw [whole, List.append_assoc, ← started, ← eq_append_trimStart]

/-! ### Parts and entries -/

/-- The lines of a part are on one line each, and none is a header. -/
theorem of_mem_partsOf {wanted : Section} {text : List Char} {lines : List (List Char)}
    (member : lines ∈ partsOf wanted (parts (Text.lines text)).2) :
    ∀ line ∈ lines, '\n' ∉ line ∧ Section.ofLine? line = none := by
  obtain ⟨part, inside, rfl⟩ := List.mem_map.mp member
  have plain := (parts_subset _).2 part (List.mem_filter.mp inside).1
  intro line kept
  obtain ⟨there, noHeader⟩ := List.mem_filter.mp (plain (List.mem_filter.mp kept).1)
  exact ⟨Text.newline_notMem_of_mem_lines there, Option.isNone_iff_eq_none.mp noHeader⟩

section

variable {Head : Type} {head? : List Char → Option (Head × List Char)}

/-- A line starts an entry, and then it is read as its head, or it continues one. -/
theorem gather_cons_cases (base : Nat) (line : List Char) (rest : List (List Char)) :
    (∃ head text, head? (Text.trim line) = some (head, text) ∧ gather head? base (line :: rest) =
      ([], (head, text :: (gather head? base rest).1) :: (gather head? base rest).2)) ∨
    gather head? base (line :: rest) =
      (line :: (gather head? base rest).1, (gather head? base rest).2) := by
  cases started : if indentation line ≤ base then head? (Text.trim line) else none with
  | some read =>
    have same : head? (Text.trim line) = some read := by
      split at started
      · exact started
      · exact absurd started.symm (Option.some_ne_none _)
    exact .inl ⟨read.1, read.2, same, by rw [gather, started]⟩
  | none => exact .inr (by rw [gather, started])

/-- Each entry that is gathered was started by one of the lines, and the others are lines too. -/
theorem exists_of_mem_gather {base : Nat} {lines : List (List Char)} :
    (gather head? base lines).1 ⊆ lines ∧ ∀ entry ∈ (gather head? base lines).2,
      ∃ line ∈ lines, ∃ text loose, head? (Text.trim line) = some (entry.1, text) ∧
        entry.2 = text :: loose ∧ loose ⊆ lines := by
  induction lines with
  | nil => exact ⟨List.Subset.refl _, fun _ member => absurd member List.not_mem_nil⟩
  | cons line rest inductionHypothesis =>
    obtain ⟨lead, found⟩ := inductionHypothesis
    have below := List.subset_cons_self line rest
    have later : ∀ entry ∈ (gather head? base rest).2, ∃ other ∈ line :: rest, ∃ text loose,
        head? (Text.trim other) = some (entry.1, text) ∧ entry.2 = text :: loose ∧
          loose ⊆ line :: rest := by
      intro entry member
      obtain ⟨other, inside, text, loose, read, whole, subset⟩ := found entry member
      exact ⟨other, below inside, text, loose, read, whole, List.Subset.trans subset below⟩
    rcases gather_cons_cases base line rest with ⟨head, text, read, same⟩ | same
    · rw [same]
      refine ⟨List.nil_subset _, List.forall_mem_cons.mpr ⟨?_, later⟩⟩
      exact ⟨line, List.mem_cons_self, text, _, read, rfl, List.Subset.trans lead below⟩
    · rw [same]
      exact ⟨List.cons_subset_cons line lead, later⟩

/-- The pieces that folding puts together are the lines without the blanks around them, where anything is
left. -/
theorem of_mem_pieces {lines : List (List Char)} {piece : List Char}
    (member : piece ∈ (lines.map Text.trim).filter fun line => !line.isEmpty) :
    (piece ≠ [] ∧ Text.trim piece = piece) ∧ ∃ line ∈ lines, Text.trim line = piece := by
  obtain ⟨mapped, filled⟩ := List.mem_filter.mp member
  obtain ⟨line, inside, rfl⟩ := List.mem_map.mp mapped
  exact ⟨⟨List.isEmpty_eq_false_iff.mp ((Bool.not_eq_true' _).mp filled), Text.trim_trim line⟩,
    line, inside, rfl⟩

/-- Folded lines are one trimmed line. -/
theorem isTrimmedLine_folded {lines : List (List Char)} (plain : ∀ line ∈ lines, '\n' ∉ line) :
    IsTrimmedLine (folded lines) := by
  refine ⟨Text.trim_spaced_of_trimmed fun piece member => (of_mem_pieces member).1, fun feed => ?_⟩
  obtain ⟨piece, member, within⟩ := (Text.of_mem_intercalate feed).resolve_left (by decide)
  obtain ⟨-, line, inside, rfl⟩ := of_mem_pieces member
  exact plain line inside (Text.mem_of_mem_trim within)

/-- Lines that fold to nothing are blank. -/
theorem trim_eq_nil_of_folded_eq_nil {lines : List (List Char)} (nothing : folded lines = []) :
    ∀ line ∈ lines, Text.trim line = [] := by
  intro line member
  by_contra filled
  refine Text.spaced_ne_nil_of_filled (fun piece kept => (of_mem_pieces kept).1.1) ?_ nothing
  refine List.ne_nil_of_mem (List.mem_filter.mpr ⟨List.mem_map_of_mem member, ?_⟩)
  rw [List.isEmpty_eq_false_iff.mpr filled, Bool.not_false]

/-- A line that starts an entry of a section. If the entry has no text, nothing stands behind its head. -/
structure StartsEntry (head? : List Char → Option (Head × List Char)) (line : List Char)
    (entry : Head × List Char) : Prop where
  noFeed : '\n' ∉ line
  noHeader : Section.ofLine? line = none
  read : ∃ text, head? line = some (entry.1, text) ∧ (entry.2 = [] → Text.trim text = [])

/-- The type of an argument is what stands in the parentheses of its line, trimmed and not empty. -/
theorem StartsEntry.hint {line : List Char} {entry : (List Char × List Char) × List Char}
    (starts : StartsEntry argumentHead? line entry) : ∀ hint ∈ (argumentOf entry).typeHint,
      hint.toList ≠ [] ∧ Text.trim hint.toList = hint.toList ∧ ')' ∉ hint.toList ∧
        '\n' ∉ hint.toList := by
  intro hint given
  obtain ⟨noFeed, -, spill, read, -⟩ := starts
  obtain ⟨-, closing, trimmed, inner, tail, rfl, -, hinted⟩ := exists_of_argumentHead? read
  unfold argumentOf at given
  dsimp only at given
  split at given
  · exact absurd given (Option.not_mem_none _)
  · next filled =>
    obtain rfl := Option.some.inj given
    rw [String.toList_ofList]
    refine ⟨fun none => filled (List.isEmpty_iff.mpr none), trimmed, closing, fun feed => noFeed ?_⟩
    rcases hinted with none | ⟨before, written, after, rfl, same⟩
    · rw [none] at feed
      exact absurd feed List.not_mem_nil
    · rw [same] at feed
      simp [Text.mem_of_mem_trim feed]

/-- The text of an entry is one trimmed line, and some line starts it. -/
theorem exists_of_mem_entries {lines : List (List Char)}
    (plain : ∀ line ∈ lines, '\n' ∉ line ∧ Section.ofLine? line = none)
    (clean : ∀ {line head text}, head? line = some (head, text) → '\n' ∉ line → '\n' ∉ text)
    {entry : Head × List Char} (member : entry ∈ entries head? lines) :
    IsTrimmedLine entry.2 ∧ ∃ line, StartsEntry head? line entry := by
  obtain ⟨gathered, inside, rfl⟩ := List.mem_map.mp member
  obtain ⟨line, there, text, loose, read, whole, subset⟩ := exists_of_mem_gather.2 gathered inside
  obtain ⟨feedless, noHeader⟩ := plain line there
  have noFeed : '\n' ∉ Text.trim line := fun feed => feedless (Text.mem_of_mem_trim feed)
  refine ⟨?_, Text.trim line, noFeed, ?_, text, read, fun nothing => ?_⟩
  · rw [whole]
    exact isTrimmedLine_folded (List.forall_mem_cons.mpr
      ⟨clean read noFeed, fun other later => (plain other (subset later)).1⟩)
  · rwa [ofLine?_of_trim_eq (Text.trim_trim line)]
  · rw [whole] at nothing
    exact trim_eq_nil_of_folded_eq_nil nothing text List.mem_cons_self

end

/-! ### Tags -/

/-- The cut at the commas only leaves characters out. -/
theorem cutTags_sublist (quoted : Bool) (current text : List Char) :
    (cutTags quoted current text).flatten.Sublist (current ++ text) := by
  fun_induction cutTags quoted current text with
  | case1 quoted current => rw [List.flatten_singleton, List.append_nil]
  | case2 quoted current rest inductionHypothesis =>
    exact inductionHypothesis.trans ((List.sublist_cons_self _ _).append_left _)
  | case3 current next rest inductionHypothesis =>
    rw [List.append_assoc] at inductionHypothesis
    exact inductionHypothesis.trans ((List.sublist_cons_self _ _).append_left _)
  | case4 quoted current next rest outside inductionHypothesis =>
    rwa [List.append_assoc] at inductionHypothesis
  | case5 current => rw [List.flatten_singleton]; exact List.sublist_append_left _ _
  | case6 quoted current outside => rw [List.flatten_singleton]
  | case7 quoted current character rest _ _ _ cut inductionHypothesis =>
    rw [List.flatten_cons]
    exact (inductionHypothesis.trans (List.sublist_cons_self _ _)).append_left _
  | case8 quoted current character rest _ _ _ kept inductionHypothesis =>
    rwa [List.append_assoc] at inductionHypothesis

theorem of_mem_tagsOf {text tag : List Char} (member : tag ∈ tagsOf text) :
    tag ≠ [] ∧ Text.trim tag = tag ∧ ∀ character ∈ tag, character ∈ text := by
  obtain ⟨trimmed, filled⟩ := List.mem_filter.mp member
  obtain ⟨piece, inside, rfl⟩ := List.mem_map.mp trimmed
  refine ⟨List.isEmpty_eq_false_iff.mp ((Bool.not_eq_true' _).mp filled), Text.trim_trim piece, ?_⟩
  exact fun character there => (cutTags_sublist false [] text).mem
    (List.mem_flatten_of_mem inside (Text.mem_of_mem_trim there))

/-! ### The summary -/

/-- A line stands for itself, or a backslash is taken away in front of something that needs an escape. -/
theorem unescapedLine_cases (line : List Char) :
    unescapedLine line = line ∨
      line = '\\' :: unescapedLine line ∧ needsEscape (unescapedLine line) = true := by
  cases line with
  | nil => exact .inl rfl
  | cons first rest =>
    rw [unescapedLine]
    split
    · next escaped =>
      obtain ⟨backslash, needed⟩ := Bool.and_eq_true_iff.mp escaped
      exact .inr ⟨congrArg (· :: rest) (of_decide_eq_true backslash), needed⟩
    · exact .inl rfl

/-- What trimming keeps, and holds of each line without its backslash, holds of each line of the summary. -/
theorem of_mem_splitOn_summaryOf {holds : List Char → Prop}
    (start : ∀ line, holds line → holds (Text.trimStart line))
    (stop : ∀ line, holds line → holds (Text.trimEnd line)) (nothing : holds [])
    (noFeed : ∀ line, holds line → '\n' ∉ line) {lines : List (List Char)}
    (each : ∀ line ∈ lines, holds (unescapedLine (Text.trim line))) :
    ∀ line ∈ (summaryOf lines).splitOn '\n', holds line := by
  obtain ⟨kept, keptHolds, joined⟩ :=
    Text.exists_trim_joinLines start stop (List.forall_mem_map.mpr each)
  intro line member
  rw [summaryOf, joined] at member
  rcases Text.of_mem_splitOn_joinLines (fun line there => noFeed line (keptHolds line there)) member
    with rfl | there
  · exact nothing
  · exact keptHolds line there

/-- A line of a summary that is read does not end with a blank, and it starts with one only if it needs an
escape: the backslash kept it apart from the blanks that were trimmed away. -/
theorem of_mem_summaryOf {lines : List (List Char)} (plain : ∀ line ∈ lines, '\n' ∉ line) :
    ∀ line ∈ (summaryOf lines).splitOn '\n',
      Text.trimEnd line = line ∧ (Text.trim line = line ∨ needsEscape line = true) := by
  have each : ∀ line ∈ (summaryOf lines).splitOn '\n', '\n' ∉ line ∧
      Text.trimEnd line = line ∧ (Text.trim line = line ∨ needsEscape line = true) := by
    refine of_mem_splitOn_summaryOf (fun line given => ?_) (fun line given => ?_)
      ⟨List.not_mem_nil, rfl, .inl rfl⟩ (fun line given => given.1) fun line member => ?_
    · obtain ⟨noFeed, ended, -⟩ := given
      have stop := Text.trimEnd_trimStart ended
      refine ⟨fun feed => noFeed (Text.mem_of_mem_trimStart feed), stop, .inl ?_⟩
      conv_lhs => rw [← stop, ← Text.trim, Text.trim_trim, Text.trim, stop]
    · rwa [given.2.1]
    · have noFeed : '\n' ∉ Text.trim line :=
        fun feed => plain line member (Text.mem_of_mem_trim feed)
      rcases unescapedLine_cases (Text.trim line) with same | ⟨whole, needed⟩
      · rw [same]
        exact ⟨noFeed, Text.trimEnd_trimEnd _, .inl (Text.trim_trim line)⟩
      · have suffix : unescapedLine (Text.trim line) <:+ Text.trim line :=
          ⟨['\\'], whole.symm⟩
        exact ⟨fun feed => noFeed (suffix.mem feed),
          Text.trimEnd_of_suffix (Text.trimEnd_trimEnd _) suffix, .inr needed⟩
  exact fun line member => (each line member).2

/-! ### Blocks -/

/-- What is put from the parts of a section was read from entries, each of which some line starts. -/
theorem exists_of_mem_putAll_entries {Head Item : Type} {head? : List Char → Option (Head × List Char)}
    (clean : ∀ {line head text}, head? line = some (head, text) → '\n' ∉ line → '\n' ∉ text)
    {key : Item → String} {itemOf : Head × List Char → Item} {wanted : Section} {text : List Char}
    {item : Item}
    (member : item ∈ Keyed.putAll key []
      (((partsOf wanted (parts (Text.lines text)).2).flatMap (entries head?)).map itemOf)) :
    ∃ entry line, item = itemOf entry ∧ IsTrimmedLine entry.2 ∧ StartsEntry head? line entry := by
  have put := (Keyed.mem_of_mem_putAll member).resolve_left List.not_mem_nil
  obtain ⟨entry, found, rfl⟩ := List.mem_map.mp put
  obtain ⟨lines, part, inside⟩ := List.mem_flatMap.mp found
  obtain ⟨folded, line, starts⟩ := exists_of_mem_entries (of_mem_partsOf part) clean inside
  exact ⟨entry, line, rfl, folded, starts⟩

section

variable (text : String)

theorem parse_summary :
    (parse text).summary.toList = summaryOf (parts (Text.lines text.toList)).1 := by
  rw [parse, String.toList_ofList]

theorem parse_arguments :
    (parse text).arguments = Keyed.putAll Argument.name []
      (((partsOf .arguments (parts (Text.lines text.toList)).2).flatMap
        (entries argumentHead?)).map argumentOf) := by
  rw [parse]

theorem parse_returns :
    (parse text).returns.toList =
      folded (partsOf .returns (parts (Text.lines text.toList)).2).flatten := by
  rw [parse, String.toList_ofList]

theorem parse_failures :
    (parse text).failures = Keyed.putAll Failure.kind []
      (((partsOf .failures (parts (Text.lines text.toList)).2).flatMap
        (entries failureHead?)).map failureOf) := by
  rw [parse]

theorem parse_tags :
    (parse text).tags = (tagsOf (folded
      (partsOf .tags (parts (Text.lines text.toList)).2).flatten)).map String.ofList := by
  rw [parse]

end

theorem exists_of_mem_arguments {text : String} {argument : Argument}
    (member : argument ∈ (parse text).arguments) :
    ∃ entry line, argument = argumentOf entry ∧ IsTrimmedLine entry.2 ∧
      StartsEntry argumentHead? line entry := by
  rw [parse_arguments] at member
  refine exists_of_mem_putAll_entries (fun read noFeed feed => ?_) member
  obtain ⟨-, -, -, inner, tail, rfl, rfl, -⟩ := exists_of_argumentHead? read
  exact noFeed (List.mem_append_right _ (List.mem_cons_of_mem _ (Text.mem_of_mem_trim feed)))

theorem exists_of_mem_failures {text : String} {failure : Failure}
    (member : failure ∈ (parse text).failures) :
    ∃ entry line, failure = failureOf entry ∧ IsTrimmedLine entry.2 ∧
      StartsEntry failureHead? line entry := by
  rw [parse_failures] at member
  refine exists_of_mem_putAll_entries (fun read noFeed feed => ?_) member
  obtain ⟨-, inner, tail, rfl, rfl, -⟩ := exists_of_failureHead? read
  exact noFeed (List.mem_append_right _ (List.mem_cons_of_mem _ (Text.mem_of_mem_trim feed)))

theorem of_mem_summary_parse {text : String} : ∀ line ∈ (parse text).summary.toList.splitOn '\n',
    Text.trimEnd line = line ∧ (Text.trim line = line ∨ needsEscape line = true) := by
  rw [parse_summary]
  exact of_mem_summaryOf fun line member =>
    Text.newline_notMem_of_mem_lines (List.mem_filter.mp ((parts_subset _).1 member)).1

theorem isTrimmedLine_folded_partsOf (wanted : Section) (text : List Char) :
    IsTrimmedLine (folded (partsOf wanted (parts (Text.lines text)).2).flatten) := by
  refine isTrimmedLine_folded fun line member => ?_
  obtain ⟨lines, part, inside⟩ := List.mem_flatten.mp member
  exact (of_mem_partsOf part line inside).1

/-- Every block that is read is well formed. -/
theorem isWellFormed_parse (text : String) : (parse text).IsWellFormed where
  argumentNames argument member := by
    obtain ⟨entry, line, rfl, -, -, -, spill, read, -⟩ := exists_of_mem_arguments member
    rw [argumentOf, String.toList_ofList]
    exact (exists_of_argumentHead? read).1
  argumentsDistinct := by
    rw [parse_arguments]
    refine Keyed.nodup_map_putAll ?_ _
    exact List.nodup_nil
  hints argument member hint given := by
    obtain ⟨entry, line, rfl, -, starts⟩ := exists_of_mem_arguments member
    exact starts.hint hint given
  argumentTexts argument member := by
    obtain ⟨entry, line, rfl, folded, -⟩ := exists_of_mem_arguments member
    rwa [argumentOf, String.toList_ofList]
  failureKinds failure member := by
    obtain ⟨entry, line, rfl, -, -, -, spill, read, -⟩ := exists_of_mem_failures member
    rw [failureOf, String.toList_ofList]
    exact (exists_of_failureHead? read).1
  failuresDistinct := by
    rw [parse_failures]
    refine Keyed.nodup_map_putAll ?_ _
    exact List.nodup_nil
  failureTexts failure member := by
    obtain ⟨entry, line, rfl, folded, -⟩ := exists_of_mem_failures member
    rwa [failureOf, String.toList_ofList]
  returnsText := by
    rw [parse_returns]
    exact isTrimmedLine_folded_partsOf .returns _
  tags tag member := by
    rw [parse_tags] at member
    obtain ⟨cut, inside, rfl⟩ := List.mem_map.mp member
    obtain ⟨filled, trimmed, kept⟩ := of_mem_tagsOf inside
    rw [String.toList_ofList]
    exact ⟨filled, trimmed, fun feed => (isTrimmedLine_folded_partsOf .tags _).2 (kept _ feed)⟩
  summary := by
    rw [parse_summary]
    exact Text.trim_trim _
  summaryEnds := by
    exact fun line member => (of_mem_summary_parse line member).1

end ApiSurface.DocBlock
