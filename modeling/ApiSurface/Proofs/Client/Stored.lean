/-
This file proves that a generated client survives being stored. Its form is never nested deeper than the
reader allows, because the schemas and the examples in it come from a resolved document, whose depth is
bounded; and no key repeats in them, because none does in the document. What is lost is only an example
that is null, and nothing that is written from a client depends on examples.
-/

import ApiSurface.Client.Files
import ApiSurface.Proofs.Client.Documentation
import ApiSurface.Proofs.Client.Form
import ApiSurface.Proofs.OpenApi.Document
import ApiSurface.Proofs.OpenApi.Settled
import ApiSurface.Proofs.Operation.Source

namespace ApiSurface

open Json

/-- The segment without examples that are null. -/
def Segment.withoutNullExamples (segment : Segment) : Segment :=
  { segment with methods := segment.methods.map Method.withoutNullExamples }

namespace Client

/-! ### Sources -/

/-- The schemas and the examples of the parameters of a client stand in the document. -/
theorem standsIn_of_mem {document : OpenApi.Document} {config : Config} {client : Client}
    (generated : generate document config = .ok client) {method : Method}
    (member : method ∈ client.methods) {parameter : Parameter} (inside : parameter ∈ method.parameters) :
    StandsIn document.root parameter.schema ∧
      ∀ example_ ∈ parameter.example?, StandsIn document.root example_ := by
  obtain ⟨operation, listed, extracted, resolved, extracts, coherent, -, -⟩ :=
    exists_coherent_of_mem generated member
  obtain ⟨raw, declared⟩ := Operation.standsIn_of_mem_ofDocument listed
  exact Operation.isFrom_of_isCoherent coherent (Operation.isFrom_of_extract extracts raw declared) inside

/-- No key repeats in the schemas and the examples of a client, and their depth is bounded. -/
theorem distinct_bounded_of_generate {value : Json} {document : OpenApi.Document} {config : Config}
    {client : Client} (distinct : value.HasDistinctKeys)
    (resolved : OpenApi.Document.ofJson value = .ok document)
    (generated : generate document config = .ok client) :
    ∀ method ∈ client.methods, ∀ parameter ∈ method.parameters,
      parameter.HasDistinctKeys ∧ parameter.IsBounded (OpenApi.maxDepth + 2) := by
  intro method member parameter inside
  obtain ⟨keys, depth⟩ := OpenApi.resolve_distinct distinct
  rw [← OpenApi.Document.root_eq_of_ofJson resolved] at keys depth
  have inherits {inner : Json} (stands : StandsIn document.root inner) : inner.HasDistinctKeys ∧
      ∀ below further, SitsBelow inner below further → below ≤ OpenApi.maxDepth + 2 := by
    rcases stands with ⟨above, there⟩ | rfl
    · exact ⟨keys.of_sitsBelow there, fun below further deeper =>
        Nat.le_trans (Nat.le_add_right below above) (depth _ further (there.trans deeper))⟩
    · refine ⟨hasDistinctKeys_nothing, fun below further deeper => ?_⟩
      cases deeper with
      | here => exact Nat.zero_le _
      | member absent => exact absurd absent List.not_mem_nil
  obtain ⟨schema, sample⟩ := standsIn_of_mem generated member inside
  exact ⟨⟨(inherits schema).1, fun example_ given => (inherits (sample example_ given)).1⟩,
    (inherits schema).2, fun example_ given => (inherits (sample example_ given)).2⟩

/-! ### What is written -/

theorem addTo_withoutNullExamples (key : String) (method : Method)
    (groups : List (String × List Method)) :
    addTo key method.withoutNullExamples
        (groups.map (Prod.map id (List.map Method.withoutNullExamples))) =
      (addTo key method groups).map (Prod.map id (List.map Method.withoutNullExamples)) := by
  induction groups with
  | nil => rfl
  | cons first rest inductionHypothesis =>
    obtain ⟨name, methods⟩ := first
    by_cases same : name = key
    · simp [addTo, same]
    · simp [addTo, same, inductionHypothesis]

theorem topics_withoutNullExamples (methods : List Method) :
    topics (methods.map Method.withoutNullExamples) =
      (topics methods).map (Prod.map id (List.map Method.withoutNullExamples)) := by
  rw [topics, topics, List.foldl_map]
  show List.foldl _ (List.map (Prod.map id (List.map Method.withoutNullExamples)) []) methods = _
  refine List.foldl_hom (List.map (Prod.map id (List.map Method.withoutNullExamples)))
    fun groups method => ?_
  rw [show topicOf? method.withoutNullExamples = topicOf? method from rfl]
  cases topicOf? method with
  | none => rfl
  | some key => exact addTo_withoutNullExamples key method groups

theorem claimAll_withoutNullExamples (names : Name.Allocator) (methods : List Method) :
    claimAll names (methods.map Method.withoutNullExamples) = claimAll names methods := by
  induction methods generalizing names with
  | nil => rfl
  | cons first rest inductionHypothesis =>
    rw [List.map_cons, claimAll, claimAll]
    exact congrArg (names.claimTiebreak first.name >>= ·)
      (funext fun claimed => inductionHypothesis claimed.2)

theorem segmentsFor_withoutNullExamples (names : Name.Allocator)
    (groups : List (String × List Method)) :
    segmentsFor names (groups.map (Prod.map id (List.map Method.withoutNullExamples))) =
      (segmentsFor names groups).map (List.map Segment.withoutNullExamples) := by
  induction groups generalizing names with
  | nil => rfl
  | cons first rest inductionHypothesis =>
    obtain ⟨key, methods⟩ := first
    rw [List.map_cons, Prod.map_apply, id, segmentsFor, segmentsFor]
    cases names.claimTiebreak (Name.sanitize key) with
    | error fault => rfl
    | ok claimed =>
      obtain ⟨field, names⟩ := claimed
      show (segmentsFor names _ >>= _) = Except.map _ (segmentsFor names rest >>= _)
      rw [inductionHypothesis]
      cases segmentsFor names rest <;> rfl

theorem partition_withoutNullExamples (client : Client) :
    client.withoutNullExamples.partition = client.partition.map fun parts =>
      ⟨parts.segments.map Segment.withoutNullExamples, parts.root.map Method.withoutNullExamples⟩ := by
  have root : client.withoutNullExamples.methods.filter (fun method => (topicOf? method).isNone) =
      (client.methods.filter fun method => (topicOf? method).isNone).map
        Method.withoutNullExamples := by
    show (client.methods.map Method.withoutNullExamples).filter _ = _
    rw [List.filter_map]
    rfl
  have grouped := topics_withoutNullExamples client.methods
  unfold partition
  dsimp only
  rw [root, claimAll_withoutNullExamples]
  cases claimAll .forMethods (client.methods.filter fun method => (topicOf? method).isNone) with
  | error fault => rfl
  | ok names =>
    show (segmentsFor names (topics (client.methods.map Method.withoutNullExamples)) >>= _) =
      Except.map _ (segmentsFor names (topics client.methods) >>= _)
    rw [grouped, segmentsFor_withoutNullExamples]
    cases segmentsFor names (topics client.methods) <;> rfl

theorem map_methodContext_withoutNullExamples (methods : List Method) :
    (methods.map Method.withoutNullExamples).map methodContext = methods.map methodContext := by
  rw [List.map_map]
  rfl

theorem segmentFile_withoutNullExamples (client : Client) (stem : String) (segment : Segment) :
    client.withoutNullExamples.segmentFile stem segment.withoutNullExamples =
      client.segmentFile stem segment := by
  have context : client.withoutNullExamples.segmentContext stem segment.withoutNullExamples =
      client.segmentContext stem segment := by
    unfold segmentContext
    rw [show segment.withoutNullExamples.methods.map methodContext =
      segment.methods.map methodContext from map_methodContext_withoutNullExamples _]
    rfl
  rw [segmentFile, context]
  rfl

theorem clientContext_withoutNullExamples (client : Client) (split : Bool) (segments : List Segment)
    (methods : List Method) :
    client.withoutNullExamples.clientContext split (segments.map Segment.withoutNullExamples)
        (methods.map Method.withoutNullExamples) =
      client.clientContext split segments methods := by
  unfold clientContext
  rw [map_methodContext_withoutNullExamples, List.map_map]
  rfl

theorem splitFiles_withoutNullExamples (client : Client) (stem : String) :
    client.withoutNullExamples.splitFiles stem = client.splitFiles stem := by
  unfold splitFiles
  rw [partition_withoutNullExamples]
  cases client.partition with
  | error fault => rfl
  | ok parts =>
    have segments : (parts.segments.map Segment.withoutNullExamples).mapM
        (client.withoutNullExamples.segmentFile stem) =
      parts.segments.mapM (client.segmentFile stem) := by
      rw [List.mapM_map]
      exact congrArg parts.segments.mapM
        (funext fun segment => segmentFile_withoutNullExamples client stem segment)
    show (templates.render "client" (clientContext _ true _ _) >>= _) = _
    rw [clientContext_withoutNullExamples, segments]
    rfl

/-- No file of a client depends on examples that are null. -/
theorem files_withoutNullExamples (client : Client) (stem : String) (split stored : Bool) :
    client.withoutNullExamples.files stem split stored = client.files stem split stored := by
  have rendered : client.withoutNullExamples.render = client.render := by
    have context := clientContext_withoutNullExamples client false [] client.methods
    unfold render
    rw [show client.withoutNullExamples.methods = client.methods.map Method.withoutNullExamples from rfl]
    rw [List.map_nil] at context
    rw [context]
    rfl
  have kept : client.withoutNullExamples.storedFile stem = client.storedFile stem := by
    rw [storedFile, storedText, toJson_withoutNullExamples]
    rfl
  unfold files
  rw [splitFiles_withoutNullExamples, rendered, kept]

/-! ### Stored clients -/

/-- A client that is generated from a description, in which no key repeats, is read back from the text in
which it is stored, apart from examples that are null; stored again it has the same text, and the same
files are written from it. -/
theorem parseStored_storedText {value : Json} {document : OpenApi.Document} {config : Config}
    {client : Client} (distinct : value.HasDistinctKeys)
    (resolved : OpenApi.Document.ofJson value = .ok document)
    (generated : generate document config = .ok client)
    (numbers : client.toJson.HasReadableNumbers) (path : String) :
    parseStored path client.storedText = .ok client.withoutNullExamples ∧
      client.withoutNullExamples.storedText = client.storedText ∧
      ∀ stem split stored,
        client.withoutNullExamples.files stem split stored = client.files stem split stored := by
  have sources := distinct_bounded_of_generate distinct resolved generated
  have fits : FitsUnder nestingLimit 0 client.toJson :=
    fitsUnder_toJson (fun method member parameter inside => (sources method member parameter inside).2)
      (by decide)
  have read : readWritten? client.storedText = some client.toJson :=
    readWritten?_indented numbers fits
  have decoded : ofJson? client.toJson = some client.withoutNullExamples :=
    ofJson?_toJson fun method member parameter inside => (sources method member parameter inside).1
  refine ⟨?_, ?_, files_withoutNullExamples client⟩
  · rw [parseStored, read, Option.bind_some, decoded]
  · rw [storedText, toJson_withoutNullExamples]
    rfl

/-- A description whose one operation has a bounded parameter with an example that is null. -/
def nullExampleDescription : Json :=
  .object [("info", .object [("title", .text "T")]),
    ("paths", .object [("/a", .object [("get", .object [("operationId", .text "x"),
      ("parameters", .array [.object [("name", .text "q"), ("in", .text "query"),
        ("example", .null),
        ("schema", .object [("type", .text "integer"), ("maximum", .number (.int 9))])]])])])])]

/-- The number that a token holds. -/
def heldNumber? : Token → Option Json.Number
  | .scalar (.number held) => some held
  | _ => none

theorem parseStored_storedText_nullExample : ∃ document client,
    nullExampleDescription.HasDistinctKeys ∧
    OpenApi.Document.ofJson nullExampleDescription = .ok document ∧
    generate document {} = .ok client ∧ client.toJson.HasReadableNumbers ∧
    client.methods.flatMap (fun method => method.parameters.map fun parameter =>
      (parameter.external, parameter.example?.map isNull)) = [("q", some true)] ∧
    parseStored "t.json" client.storedText = .ok client.withoutNullExamples ∧
    client.withoutNullExamples.storedText = client.storedText ∧
    ∀ stem split stored,
      client.withoutNullExamples.files stem split stored = client.files stem split stored := by
  obtain ⟨document, client, resolved, generated, numbers, parameters⟩ : ∃ document client,
      OpenApi.Document.ofJson nullExampleDescription = .ok document ∧
      generate document {} = .ok client ∧
      (tokensOf client.toJson).filterMap heldNumber? = [Json.Number.int 9] ∧
      client.methods.flatMap (fun method => method.parameters.map fun parameter =>
        (parameter.external, parameter.example?.map isNull)) = [("q", some true)] :=
    ⟨_, _, rfl, rfl, by decide +kernel, by decide +kernel⟩
  have distinct : nullExampleDescription.HasDistinctKeys := by
    simp [nullExampleDescription, hasDistinctKeys_object_iff, hasDistinctKeys_array_iff, Members.keys]
  have readable : client.toJson.HasReadableNumbers := by
    refine hasReadableNumbers_of_tokensOf fun token member number same => ?_
    have inside : number ∈ [Json.Number.int 9] := by
      rw [← numbers]
      exact List.mem_filterMap.mpr ⟨token, member, by rw [same]; rfl⟩
    rw [List.mem_singleton.mp inside]
    exact ⟨_, _, rfl, rfl⟩
  exact ⟨document, client, distinct, resolved, generated, readable, parameters,
    parseStored_storedText distinct resolved generated readable "t.json"⟩

end Client

end ApiSurface
