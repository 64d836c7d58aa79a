/-
This file proves which classes of a split client can stand beside each other. The class of the client
is always named by an identifier, and no segment has its name. A segment takes the name of its class
from its topic, and nothing is done about a topic that starts with a digit, or about topics that differ
only in underscores in front of digits: these two are the only ways in which classes get names that
cannot be used together.
-/

import ApiSurface.Client.Generate
import ApiSurface.Client.Partition
import ApiSurface.Proofs.Client.Topics
import ApiSurface.Proofs.Name.Words

namespace ApiSurface

/-! ### Names of classes -/

namespace Name

/-- A name that may go on as it does is an identifier if it starts with a letter. -/
theorem isIdentifier_iff_head {name : String}
    (continued : ∀ character ∈ name.toList, Text.continuesName character = true) :
    IsIdentifier name ↔ name.toList.head?.any Text.isLetter = true := by
  constructor
  · rintro ⟨first, rest, whole, starts, -⟩
    rw [whole, List.head?_cons, Option.any_some, starts]
  · intro starts
    cases whole : name.toList with
    | nil =>
      rw [whole] at starts
      cases starts
    | cons first rest =>
      rw [whole, List.head?_cons, Option.any_some] at starts
      exact ⟨first, rest, whole, starts, fun character member =>
        continued character (whole ▸ List.mem_cons_of_mem _ member)⟩

theorem continuesName_of_mem_pascal {text : String} {character : Char}
    (member : character ∈ (pascal text).toList) : Text.continuesName character = true :=
  Text.continuesName_of_isAlphanumeric (isAlphanumeric_of_mem_pascal member)

theorem isIdentifier_ofClient (title : String) : IsIdentifier (ofClient title) := by
  have client : ∀ character ∈ "Client".toList, Text.continuesName character = true :=
    List.all_eq_true.mp (by decide)
  have named : ∀ character ∈ (pascal title ++ "Client").toList, Text.continuesName character = true := by
    intro character member
    rw [String.toList_append] at member
    exact (List.mem_append.mp member).elim continuesName_of_mem_pascal (client character)
  unfold ofClient
  dsimp only
  split
  · have api : IsIdentifier "Api" := by decide
    refine api.of_append ?_ named
    rw [String.append_assoc, String.toList_append]
  · next noDigit =>
    refine (isIdentifier_iff_head named).mpr ?_
    rw [String.toList_append]
    cases whole : (pascal title).toList with
    | nil => decide
    | cons first rest =>
      have known : Text.isAlphanumeric first = true :=
        isAlphanumeric_of_mem_pascal (whole ▸ List.mem_cons_self)
      rw [whole, List.head?_cons, Option.any_some] at noDigit
      rw [List.cons_append, List.head?_cons, Option.any_some, Text.isLetter_eq_not_isDigit known,
        Bool.eq_false_iff.mpr noDigit, Bool.not_false]

end Name

namespace Client

variable {key other : String}

theorem toList_segmentClass (key : String) :
    (segmentClass key).toList = (Name.pascal key).toList ++ "Segment".toList :=
  String.toList_append

/-- The class of a segment has an identifier for its name unless its topic starts with a digit. -/
theorem isIdentifier_segmentClass_iff (isSnake : Name.IsSnake key) :
    Name.IsIdentifier (segmentClass key) ↔ key.toList.head?.any Text.isDigit = false := by
  have segment : ∀ character ∈ "Segment".toList, Text.continuesName character = true :=
    List.all_eq_true.mp (by decide)
  have continued (character : Char) (member : character ∈ (segmentClass key).toList) :
      Text.continuesName character = true := by
    rw [toList_segmentClass] at member
    exact (List.mem_append.mp member).elim Name.continuesName_of_mem_pascal (segment character)
  rw [Name.isIdentifier_iff_head continued, toList_segmentClass]
  obtain ⟨first, rest, isWord, each, whole⟩ := isSnake
  rw [Name.toList_pascal, whole, Name.runs_joined isWord each, List.flatMap_cons]
  obtain ⟨filled, plain⟩ := isWord
  cases first with
  | nil => exact absurd rfl filled
  | cons start others =>
    have raised : Text.isLetter start.toUpper = !Text.isDigit start :=
      beq_iff_eq.mp (Name.of_isSmall_or_isDigit
        (fun start => Text.isLetter start.toUpper == !Text.isDigit start) (by decide)
        (plain start List.mem_cons_self))
    simp [Name.capitalized, raised]

theorem segmentClass_eq_iff (isSnake : Name.IsSnake key) (isOther : Name.IsSnake other) :
    segmentClass key = segmentClass other ↔
      Name.closedUp key.toList = Name.closedUp other.toList := by
  rw [← Name.pascal_eq_iff isSnake isOther]
  exact String.append_left_inj "Segment"

/-- Classes of segments and of clients end in different words. -/
theorem segmentClass_ne_ofClient (key title : String) : segmentClass key ≠ Name.ofClient title := by
  have ends : ∃ front : String, Name.ofClient title = front ++ "Client" := by
    unfold Name.ofClient
    dsimp only
    split
    · exact ⟨_, rfl⟩
    · exact ⟨_, rfl⟩
  obtain ⟨front, whole⟩ := ends
  rw [whole, segmentClass]
  intro same
  have letters := congrArg String.toList same
  rw [String.toList_append, String.toList_append,
    show "Segment".toList = ['S'] ++ "egment".toList from rfl, ← List.append_assoc] at letters
  exact absurd (List.append_inj' letters (by decide)).2 (by decide)

/-! ### Topics -/

theorem isSnake_of_topic? {path : String} (found : topic? path = some key) : Name.IsSnake key := by
  obtain ⟨piece, -, named⟩ := Option.bind_eq_some_iff.mp found
  unfold topicOfPiece? at named
  dsimp only at named
  split at named
  · cases named
  split at named
  · cases named
  · next filled =>
    obtain rfl := Option.some.inj named
    exact Name.isSnake_snake fun empty => filled (by rw [empty]; rfl)

theorem isSnake_of_topicOf? {method : Method} (found : topicOf? method = some key) :
    Name.IsSnake key := by
  obtain ⟨marker, -, topic⟩ := Option.bind_eq_some_iff.mp found
  exact isSnake_of_topic? topic

theorem className_of_segmentsFor {names : Name.Allocator} {groups : List (String × List Method)}
    {segments : List Segment} (done : segmentsFor names groups = .ok segments) :
    ∀ segment ∈ segments, segment.className = segmentClass segment.key := by
  induction groups generalizing names segments with
  | nil =>
    obtain rfl := Except.ok.inj done
    exact fun segment member => absurd member List.not_mem_nil
  | cons group rest inductionHypothesis =>
    obtain ⟨_, -, done⟩ := bind_eq_ok.mp done
    obtain ⟨others, further, done⟩ := bind_eq_ok.mp done
    obtain rfl := Except.ok.inj done
    exact List.forall_mem_cons.mpr ⟨rfl, inductionHypothesis further⟩

/-- The class of a segment is named for its topic, a name in small words. -/
theorem className_of_partition {client : Client} {parts : Partition}
    (done : partition client = .ok parts) {segment : Segment} (member : segment ∈ parts.segments) :
    segment.className = segmentClass segment.key ∧ Name.IsSnake segment.key := by
  obtain ⟨-, names, -, made⟩ := partition_eq_ok done
  refine ⟨className_of_segmentsFor made segment member, ?_⟩
  have known := List.mem_map_of_mem (f := Segment.key) member
  rw [keys_of_partition done] at known
  obtain ⟨method, -, topic⟩ := mem_topicKeys_iff.mp known
  exact isSnake_of_topicOf? topic

/-! ### Clients -/

/-- What is known about the names of the classes of a split client. -/
structure NamesClasses (client : Client) (parts : Partition) : Prop where
  /-- The class of the client is named by an identifier. -/
  root : Name.IsIdentifier client.className
  /-- No class of a segment is without a name. -/
  filled : ∀ segment ∈ parts.segments, segment.className ≠ ""
  /-- The class of a segment is named by an identifier unless its topic starts with a digit. -/
  segments : ∀ segment ∈ parts.segments,
    Name.IsIdentifier segment.className ↔ segment.key.toList.head?.any Text.isDigit = false
  /-- The classes of segments have pairwise different names unless two of the topics differ only in
  underscores in front of digits. -/
  distinct : (parts.segments.map Segment.className).Nodup ↔
    (parts.segments.map fun segment => Name.closedUp segment.key.toList).Nodup
  /-- No class of a segment has the name of the class of the client. -/
  apart : ∀ segment ∈ parts.segments, segment.className ≠ client.className

/-- The names of the classes of a split client whose name comes from the title. -/
theorem namesClasses_of_generate {document : OpenApi.Document} {config : Config} {client : Client}
    {parts : Partition} (untold : config.className = none)
    (generated : generate document config = .ok client) (done : partition client = .ok parts) :
    NamesClasses client parts := by
  have named : client.className = Name.ofClient document.title := by
    obtain ⟨methods, -, whole⟩ := bind_eq_ok.mp generated
    have given : client.className = config.className.getD (Name.ofClient document.title) :=
      congrArg className (Except.ok.inj whole).symm
    rw [given, untold, Option.getD_none]
  have topics {segment : Segment} (member : segment ∈ parts.segments) :=
    className_of_partition done member
  refine {
    root := named ▸ Name.isIdentifier_ofClient document.title
    filled := fun segment member => ?_
    segments := fun segment member => ?_
    distinct := ?_
    apart := fun segment member => ?_ }
  · rw [(topics member).1]
    intro empty
    have letters := congrArg String.toList empty
    rw [toList_segmentClass] at letters
    exact List.append_ne_nil_of_right_ne_nil _ (by decide) letters
  · rw [(topics member).1]
    exact isIdentifier_segmentClass_iff (topics member).2
  · rw [List.Nodup, List.Nodup, List.pairwise_map, List.pairwise_map]
    refine List.Pairwise.iff_of_mem fun member further => not_congr ?_
    rw [(topics member).1, (topics further).1]
    exact segmentClass_eq_iff (topics member).2 (topics further).2
  · rw [(topics member).1, named]
    exact segmentClass_ne_ofClient segment.key document.title

/-- A description with an operation for each of some paths, under an identifier of its own. -/
def listedDescription (operations : List (String × String)) : Json :=
  .object [("info", .object [("title", .text "3D Shop")]),
    ("paths", .object (operations.map fun (path, identifier) =>
      (path, .object [("get", .object [("operationId", .text identifier)])])))]

/-- What can be computed from the client for a description and its parts. -/
theorem exists_split_of_computed {Result : Type} (description : Json)
    (compute : Client → Partition → Result) (result : Result)
    (computed : ((OpenApi.Document.ofJson description).toOption.bind fun document =>
      (generate document {}).toOption.bind fun client =>
        (partition client).toOption.map (compute client)) = some result) :
    ∃ document client parts, OpenApi.Document.ofJson description = .ok document ∧
      generate document {} = .ok client ∧ partition client = .ok parts ∧
      compute client parts = result := by
  obtain ⟨document, read, computed⟩ := Option.bind_eq_some_iff.mp computed
  obtain ⟨client, generated, computed⟩ := Option.bind_eq_some_iff.mp computed
  obtain ⟨parts, done, same⟩ := Option.map_eq_some_iff.mp computed
  exact ⟨document, client, parts, eq_ok_of_toOption read, eq_ok_of_toOption generated,
    eq_ok_of_toOption done, same⟩

/-- The names of all classes of a split client, that of the client first. -/
def classNames (client : Client) (parts : Partition) : List String :=
  client.className :: parts.segments.map Segment.className

/-- Topics that look alike still give classes of their own. -/
theorem namesClasses_of_generate_lookalikes : ∃ document client parts,
    OpenApi.Document.ofJson (listedDescription
      [("/pet-store", "a"), ("/petstore/x", "b"), ("/v2/pet_2nd", "c")]) = .ok document ∧
    ({} : Config).className = none ∧ generate document {} = .ok client ∧
    partition client = .ok parts ∧ classNames client parts =
      ["Api3DShopClient", "PetStoreSegment", "PetstoreSegment", "Pet2ndSegment"] ∧
    NamesClasses client parts := by
  obtain ⟨document, client, parts, read, generated, done, named⟩ :=
    exists_split_of_computed (listedDescription
        [("/pet-store", "a"), ("/petstore/x", "b"), ("/v2/pet_2nd", "c")]) classNames
      ["Api3DShopClient", "PetStoreSegment", "PetstoreSegment", "Pet2ndSegment"] rfl
  exact ⟨document, client, parts, read, rfl, generated, done, named,
    namesClasses_of_generate rfl generated done⟩

/-- Topics that start with a digit name their classes by no identifiers, and two topics that differ in
an underscore in front of a digit name one class. -/
theorem exists_classNames_unusable : ∃ document client parts,
    OpenApi.Document.ofJson (listedDescription [("/1a2b", "x"), ("/1a-2b", "y")]) = .ok document ∧
    ({} : Config).className = none ∧ generate document {} = .ok client ∧
    partition client = .ok parts ∧
    classNames client parts = ["Api3DShopClient", "1a2bSegment", "1a2bSegment"] ∧
    ¬ (∀ name ∈ classNames client parts, Name.IsIdentifier name) ∧
    ¬ (classNames client parts).Nodup := by
  obtain ⟨document, client, parts, read, generated, done, named⟩ :=
    exists_split_of_computed (listedDescription [("/1a2b", "x"), ("/1a-2b", "y")]) classNames
      ["Api3DShopClient", "1a2bSegment", "1a2bSegment"] rfl
  refine ⟨document, client, parts, read, rfl, generated, done, named, ?_, ?_⟩
  · rw [named]
    decide
  · rw [named]
    decide

end Client

end ApiSurface
