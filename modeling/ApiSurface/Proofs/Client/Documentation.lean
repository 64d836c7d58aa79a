/-
This file proves how far the documentation of a method reads back. Making a method already brings almost
everything into a form that does: names are identifiers, the hints of types hold no parenthesis,
descriptions are on one line and the paragraphs of the summary are trimmed. What is left are the texts
that are taken over as the document writes them, which are the tags, the names and examples of
parameters and the path, and the places where a word stands alone on its line. A tool that is made from
the documentation knows about its parameters what the method says about them.
-/

import ApiSurface.Proofs.Client.Methods
import ApiSurface.Proofs.DocBlock.RoundTrip
import ApiSurface.Proofs.Hint.Agreement
import ApiSurface.Proofs.Json.Writer
import ApiSurface.Proofs.Text.Trimmed
import ApiSurface.Proofs.Text.Words
import ApiSurface.Tool.Operation

namespace ApiSurface.Client

open DocBlock (Section)
open Text (IsOneLine IsTrimmed)

/-! ### Texts -/

/-- The paragraphs of any text are trimmed line by line. -/
theorem isTrimmed_paragraphs (text : String) : IsTrimmed (paragraphs text).toList := by
  rw [paragraphs, String.toList_ofList]
  generalize pieces : ((Text.lines text.toList).map Text.trim).splitOnP List.isEmpty = blocks
  by_cases nothing : (blocks.filter fun block => !block.isEmpty) = []
  · rw [nothing]
    decide
  refine (Text.isTrimmed_intercalate (fun before after filled => (before.append after filled · |>.2))
    (fun block member => ?_) (by rwa [ne_eq, List.map_eq_nil_iff])).1
  obtain ⟨lines, kept, rfl⟩ := List.mem_map.mp member
  obtain ⟨cut, filled⟩ := List.mem_filter.mp kept
  refine Text.isTrimmed_intercalate (fun before after filled => (before.append after filled · |>.1))
    (fun line inside => ?_) (by simpa using filled)
  obtain ⟨trimmed, solid⟩ := Text.mem_of_mem_splitOnP (pieces ▸ cut) line inside
  obtain ⟨raw, given, rfl⟩ := List.mem_map.mp trimmed
  refine ⟨Text.isTrimmed_of_line (Text.trim_trim raw) fun feed => ?_,
    List.isEmpty_eq_false_iff.mp solid⟩
  exact Text.newline_notMem_of_mem_lines given (Text.mem_of_mem_trim feed)

/-- The summary is trimmed, unless it has to be made up from verb and path. -/
theorem isTrimmed_summaryOf (operation : ExtractedOperation)
    (label : summaryOf operation = operation.verb.upper ++ " " ++ operation.path →
      IsTrimmed (summaryOf operation).toList) : IsTrimmed (summaryOf operation).toList := by
  cases found : ([paragraphs operation.summary, paragraphs operation.description].filter
      fun text => !text.isEmpty).eraseDups with
  | nil => exact label (by rw [summaryOf, found])
  | cons first rest =>
    have whole : (summaryOf operation).toList =
        ['\n', '\n'].intercalate ((first :: rest).map String.toList) := by
      rw [summaryOf, found]
      exact String.toList_intercalate
    rw [whole]
    refine (Text.isTrimmed_intercalate (fun before after filled => (before.append after filled · |>.2))
      (fun text member => ?_) (List.map_eq_nil_iff.not.mpr (List.cons_ne_nil _ _))).1
    obtain ⟨written, inside, rfl⟩ := List.mem_map.mp member
    rw [← found, List.mem_eraseDups] at inside
    obtain ⟨given, filled⟩ := List.mem_filter.mp inside
    refine ⟨?_, DocBlock.toList_ne_nil (by simpa using filled)⟩
    rcases List.mem_pair.mp given with rfl | rfl <;> exact isTrimmed_paragraphs _

/-! ### Hints -/

/-- A hint that can stand between parentheses. -/
def IsHint (hint : String) : Prop :=
  hint.toList ≠ [] ∧ IsOneLine hint.toList ∧ ')' ∉ hint.toList

instance (hint : String) : Decidable (IsHint hint) :=
  inferInstanceAs (Decidable (_ ∧ _ ∧ _))

/-- A hint in parentheses reads back. -/
theorem IsHint.readable {hint : String} (isHint : IsHint hint) :
    hint.toList ≠ [] ∧ Text.trim hint.toList = hint.toList ∧ ')' ∉ hint.toList ∧
      '\n' ∉ hint.toList := by
  obtain ⟨filled, oneLine, noParenthesis⟩ := isHint
  have plain := Text.areWords_words hint.toList
  have whole : Text.spaced (Text.words hint.toList) = hint.toList := oneLine
  refine ⟨filled, ?_, noParenthesis, ?_⟩
  · rw [← whole]
    exact Text.trim_spaced plain
  · rw [← whole]
    exact Text.not_mem_spaced plain (by decide) (by decide)

/-- All hints of schemas are such hints, as there are only few. -/
theorem isHint_ofSchema (schema : Json) : IsHint (Hint.ofSchema schema) := by
  have each : ∀ entry ∈ Hint.names ++ Hint.lists, IsHint entry.1 := by decide +kernel
  have member := (Hint.ofSchema_cases schema).imp And.right And.right
  exact each _ (List.mem_append.mpr member)

theorem isHint_ofParameter (schema : Json) (isFile : Bool) :
    IsHint (Hint.ofParameter schema isFile) := by
  unfold Hint.ofParameter
  repeat' split
  · decide
  · decide
  · exact isHint_ofSchema schema

/-! ### Entries -/

/-- The text of a parameter is on one line if the texts are that it takes over. -/
theorem isOneLine_argumentText {parameter : Parameter}
    (name : oneLine parameter.description = "" → IsOneLine parameter.external.toList)
    (sample : ∀ example_ ∈ parameter.example?, IsOneLine example_.compact.toList) :
    IsOneLine (argumentText parameter).toList := by
  have described : IsOneLine (if (oneLine parameter.description).isEmpty then parameter.external
      else oneLine parameter.description).toList := by
    split
    · next empty => exact name (String.isEmpty_iff.mp empty)
    · rw [oneLine, String.toList_ofList]
      exact Text.isOneLine_joinedWords _
  unfold argumentText
  dsimp only
  generalize (if (oneLine parameter.description).isEmpty then parameter.external
    else oneLine parameter.description) = text at described
  cases given : parameter.example? with
  | none => exact described
  | some example_ =>
    generalize ended : (if text.endsWith "." then "" else ".") = stop
    have stopSolid : ∀ character ∈ stop.toList, Text.isBlank character = false := by
      rw [← ended]
      split <;> exact Text.isBlank_eq_false_of_any (by decide)
    have nonempty : text.toList ++ stop.toList ≠ [] := by
      rw [← ended]
      split
      · next dotted =>
        rintro none
        rw [String.toList_eq_nil_iff.mp (List.append_eq_nil_iff.mp none).1] at dotted
        exact absurd dotted (by decide)
      · exact List.append_ne_nil_of_right_ne_nil _ (by decide)
    have label : (" Example: " : String).toList = ' ' :: "Example:".toList ++ [' '] := by decide
    have whole : (text ++ stop ++ " Example: " ++ example_.compact).toList =
        (text.toList ++ stop.toList) ++ ' ' :: ("Example:".toList ++ ' ' :: example_.compactChars) := by
      simp only [String.toList_append, label, Json.compact, String.toList_ofList, List.append_assoc,
        List.cons_append, List.nil_append]
    have written := sample example_ given
    rw [Json.compact, String.toList_ofList] at written
    rw [whole]
    exact (described.append_solid stopSolid).append_space
      (IsOneLine.append_space (by decide) written (by decide) (Json.compactChars_ne_nil example_))
      nonempty (List.cons_ne_nil _ _)

/-- What the operation answers is described on one line. -/
theorem isOneLine_returnsText (operation : ExtractedOperation) :
    IsOneLine (returnsText operation).toList := by
  have described (kind : ReturnKind) {text : String} (oneLine : IsOneLine text.toList)
      (filled : text.toList ≠ []) : IsOneLine (kindWord kind ++ ": " ++ text).toList := by
    have whole : (kindWord kind ++ ": " ++ text).toList =
        ((kindWord kind).toList ++ [':']) ++ ' ' :: text.toList := by
      rw [String.toList_append, String.toList_append, List.append_assoc, List.append_assoc]
      rfl
    rw [whole]
    exact IsOneLine.append_space (by cases kind <;> decide) oneLine (by cases kind <;> decide) filled
  unfold returnsText
  dsimp only
  split
  · exact described _ (by decide) (by decide)
  · next filled =>
    refine described _ ?_ (DocBlock.toList_ne_nil (by simpa using filled))
    rw [Client.oneLine, String.toList_ofList]
    exact Text.isOneLine_joinedWords _

theorem trim_of_mem_tags {operation : ExtractedOperation} {parameters : List Parameter} {tag : String}
    (member : tag ∈ (documentation operation parameters).tags) :
    tag.toList ≠ [] ∧ Text.trim tag.toList = tag.toList := by
  obtain ⟨written, filled⟩ := List.mem_filter.mp member
  obtain ⟨raw, -, rfl⟩ := List.mem_map.mp written
  refine ⟨DocBlock.toList_ne_nil (by simpa using filled), ?_⟩
  rw [trimmedTag, String.toList_ofList]
  exact Text.trim_trim _

/-! ### Documentation -/

/-- What a method takes over from the document as it is written there, in a form that reads back. -/
structure TakesOverReadably (method : Method) : Prop where
  /-- Where verb and path stand for a missing summary, no line of them starts or ends with a blank. -/
  operation : ∀ marker ∈ method.marker, method.doc.summary = marker.verb.upper ++ " " ++ marker.path →
    IsTrimmed method.doc.summary.toList
  /-- Where the name of a parameter stands for a missing description, it is on one line. -/
  names : ∀ parameter ∈ method.parameters, oneLine parameter.description = "" →
    IsOneLine parameter.external.toList
  /-- The examples are on one line, with single spaces between their words. -/
  examples : ∀ parameter ∈ method.parameters, ∀ example_ ∈ parameter.example?,
    IsOneLine example_.compact.toList
  /-- No tag holds a line feed. -/
  tags : ∀ tag ∈ method.doc.tags, '\n' ∉ tag.toList
  /-- No line of a section is a word that opens a section. -/
  noHeader : ∀ opened, ∀ line ∈ method.doc.linesUnder opened, Section.ofLine? line = none

/-- The documentation of a method reads back if the texts do that it takes over. -/
theorem isReadable_of_takesOverReadably {operation : ExtractedOperation} {method : Method}
    {resolved : List Parameter} (coherent : IsCoherent operation resolved method)
    (marked : method.marker = some ⟨operation.verb, operation.path⟩)
    (documented : method.doc = documentation operation method.parameters)
    (readably : TakesOverReadably method) : method.doc.IsReadable := by
  have entry {argument : DocBlock.Argument} (member : argument ∈ method.doc.arguments) :
      ∃ parameter ∈ method.parameters, argumentOf parameter = argument := by
    rw [documented] at member
    exact List.mem_map.mp member
  have trimmed : IsTrimmed method.doc.summary.toList := by
    have summary : method.doc.summary = summaryOf operation := by rw [documented, documentation]
    have label := readably.operation _ marked
    rw [summary] at label ⊢
    exact isTrimmed_summaryOf operation label
  refine {
    argumentNames := fun argument member => ?_
    argumentsDistinct := by rw [coherent.documented]; exact coherent.distinct
    hints := fun argument member hint given => ?_
    argumentTexts := fun argument member => ?_
    failureKinds := ?_
    failuresDistinct := ?_
    failureTexts := ?_
    returnsText := by rw [documented]; exact isOneLine_returnsText operation
    tags := fun tag member => ?_
    summary := trimmed.1
    summaryLines := trimmed.2
    noHeader := readably.noHeader }
  · obtain ⟨parameter, inside, rfl⟩ := entry member
    obtain ⟨first, rest, whole, starts, continued⟩ := (coherent.names parameter inside).1
    exact ⟨first, rest, whole, by rw [Text.startsName, starts, Bool.true_or], continued⟩
  · obtain ⟨parameter, inside, rfl⟩ := entry member
    obtain rfl := Option.some.inj given
    obtain ⟨declaration, -, stands⟩ :=
      exists_of_forall₂_mem coherent.declared (coherent.permutation.mem_iff.mp inside)
    have isHint : IsHint parameter.hint := by
      rw [stands]
      exact isHint_ofParameter _ _
    exact isHint.readable
  · obtain ⟨parameter, inside, rfl⟩ := entry member
    exact isOneLine_argumentText (readably.names parameter inside) (readably.examples parameter inside)
  · have each : ∀ failure ∈ failures, DocBlock.IsName DocBlock.continuesKind failure.kind.toList := by
      decide
    rwa [documented]
  · have distinct : (failures.map DocBlock.Failure.kind).Nodup := by decide
    rwa [documented]
  · have each : ∀ failure ∈ failures, IsOneLine failure.description.toList := by decide
    rwa [documented]
  · have noFeed := readably.tags tag member
    rw [documented] at member
    obtain ⟨filled, trimmedTag⟩ := trim_of_mem_tags member
    exact ⟨filled, trimmedTag, noFeed⟩

/-! ### Clients -/

theorem methods_eq_outcomes {document : OpenApi.Document} {config : Config} {client : Client}
    (generated : generate document config = .ok client) :
    client.methods = (outcomes (namesWith []) (Operation.ofDocument document)).reduceOption := by
  obtain ⟨methods, made, rest⟩ := bind_eq_ok.mp generated
  obtain rfl := Except.ok.inj rest
  rw [show Name.Allocator.forMethods = namesWith [] from rfl, methodsFor_eq] at made
  exact (Except.ok.inj made).symm

theorem nodup_methodNames {document : OpenApi.Document} {config : Config} {client : Client}
    (generated : generate document config = .ok client) : (client.methods.map Method.name).Nodup := by
  have free : (namesWith []).taken.Nodup := by decide
  have distinct := nodup_taken_outcomes (Operation.ofDocument document) free
  rw [methods_eq_outcomes generated]
  exact List.nodup_reverse.mp (List.nodup_append.mp distinct).1

/-- Every method of a client is coherent with an operation of the document and documents it. -/
theorem exists_coherent_of_mem {document : OpenApi.Document} {config : Config} {client : Client}
    (generated : generate document config = .ok client) {method : Method}
    (member : method ∈ client.methods) :
    ∃ operation ∈ Operation.ofDocument document, ∃ extracted resolved,
      operation.extract = .ok extracted ∧ IsCoherent extracted resolved method ∧
        method.marker = some ⟨extracted.verb, extracted.path⟩ ∧
        method.doc = documentation extracted method.parameters := by
  rw [methods_eq_outcomes generated] at member
  obtain ⟨before, operation, inside, becomes⟩ := (accounts_outcomes [] _).exists_becomes member
  obtain ⟨extracted, built, after, extracts, builds, -, whole⟩ := becomes
  obtain ⟨inPath, inQuery, inBody, pathNamed, queryNamed, bodyNamed, distinct, noReceiver, rfl⟩ :=
    buildMethod_eq_ok builds
  have coherent := isCoherent_assembled pathNamed queryNamed bodyNamed distinct noReceiver
  rw [whole]
  exact ⟨operation, inside, extracted, _, extracts, { coherent with }, rfl, rfl⟩

end ApiSurface.Client
