/-
This file proves that sorting the methods of a client by topic loses, repeats and reorders nothing. The
groups that grow while the methods are gone through have at every moment a plain description: the
topics so far in the order of their first appearance, each with the methods so far that have it. From
this description everything follows. The fields that hold the segments get their names from one
allocator in which the names of all methods that stay with the client are taken already.
-/

import ApiSurface.Client.Partition
import ApiSurface.Proofs.Fault
import ApiSurface.Proofs.Keyed
import ApiSurface.Proofs.Name.Allocator
import Mathlib.Data.List.Perm.Basic
import Mathlib.Data.List.Nodup

namespace ApiSurface.Client

open Name (Allocator)

/-! ### Groups -/

/-- The topics of methods in the order in which they first appear. -/
def topicKeys (methods : List Method) : List String :=
  (methods.filterMap topicOf?).eraseDups

/-- The methods of a topic. -/
def methodsOn (key : String) (methods : List Method) : List Method :=
  methods.filter fun method => topicOf? method = some key

theorem mem_topicKeys_iff {key : String} {methods : List Method} :
    key ∈ topicKeys methods ↔ ∃ method ∈ methods, topicOf? method = some key := by
  rw [topicKeys, List.mem_eraseDups, List.mem_filterMap]

theorem nodup_topicKeys (methods : List Method) : (topicKeys methods).Nodup :=
  Keyed.nodup_eraseDups _

/-- Adding a method to groups whose keys are pairwise different appends it to the methods of its key,
which comes last if it is new. -/
theorem addTo_map (key : String) (method : Method) (content : String → List Method)
    {keys : List String} (distinct : keys.Nodup) :
    addTo key method (keys.map fun name => (name, content name)) =
      if key ∈ keys then
        keys.map fun name => (name, if name = key then content name ++ [method] else content name)
      else keys.map (fun name => (name, content name)) ++ [(key, [method])] := by
  induction keys with
  | nil => rfl
  | cons first rest inductionHypothesis =>
    obtain ⟨new, distinct⟩ := List.nodup_cons.mp distinct
    rw [List.map_cons, addTo]
    by_cases same : first = key
    · have others (name : String) (member : name ∈ rest) : name ≠ key := by
        rintro rfl
        exact new (same ▸ member)
      rw [if_pos same, if_pos (same ▸ List.mem_cons_self), List.map_cons, if_pos same]
      refine congrArg _ (List.map_congr_left fun name member => ?_)
      rw [if_neg (others name member)]
    · rw [if_neg same, inductionHypothesis distinct]
      by_cases known : key ∈ rest
      · rw [if_pos known, if_pos (List.mem_cons_of_mem _ known), List.map_cons, if_neg same]
      · have absent : key ∉ first :: rest := fun member =>
          known (List.mem_of_ne_of_mem (Ne.symm same) member)
        rw [if_neg known, if_neg absent]
        rfl

theorem methodsOn_concat (key : String) (before : List Method) (last : Method) :
    methodsOn key (before ++ [last]) =
      if topicOf? last = some key then methodsOn key before ++ [last] else methodsOn key before := by
  rw [methodsOn, List.filter_append, methodsOn]
  by_cases topic : topicOf? last = some key <;> simp [topic]

/-- The groups are the topics in the order of their first appearance, each with its methods. -/
theorem topics_eq (methods : List Method) :
    topics methods = (topicKeys methods).map fun key => (key, methodsOn key methods) := by
  induction methods using List.reverseRecOn with
  | nil => rfl
  | append_singleton before last inductionHypothesis =>
    unfold topics at inductionHypothesis ⊢
    rw [List.foldl_append, List.foldl_cons, List.foldl_nil, inductionHypothesis]
    simp only [methodsOn_concat]
    cases topic : topicOf? last with
    | none =>
      have keys : topicKeys (before ++ [last]) = topicKeys before := by
        simp [topicKeys, topic]
      simp [keys]
    | some key =>
      have keys : topicKeys (before ++ [last]) =
          topicKeys before ++ if key ∈ topicKeys before then [] else [key] := by
        simp only [topicKeys, List.filterMap_append, List.filterMap_cons, topic, List.filterMap_nil,
          Keyed.eraseDups_concat, List.mem_eraseDups]
      dsimp only
      rw [addTo_map key last (methodsOn · before) (nodup_topicKeys before), keys]
      by_cases known : key ∈ topicKeys before
      · simp only [if_pos known, List.append_nil, Option.some.injEq, eq_comm]
      · have alone : methodsOn key before = [] := List.filter_eq_nil_iff.mpr fun method member topic =>
          known (mem_topicKeys_iff.mpr ⟨method, member, of_decide_eq_true topic⟩)
        have others (name : String) (member : name ∈ topicKeys before) : key ≠ name := by
          rintro rfl
          exact known member
        rw [if_neg known, if_neg known, List.map_append, List.map_singleton, if_pos rfl, alone]
        refine congrArg (· ++ _) (List.map_congr_left fun name member => ?_)
        rw [if_neg fun same => others name member (Option.some.inj same)]

/-! ### Completeness -/

/-- The methods of pairwise different topics are those that have one of these topics, each of them
once. -/
theorem flatMap_methodsOn_perm {keys : List String} (distinct : keys.Nodup) (methods : List Method) :
    (keys.flatMap fun key => methodsOn key methods).Perm
      (methods.filter fun method => (topicOf? method).any keys.contains) := by
  have distinctTopics : (keys.map some).Nodup := distinct.map fun _ _ => Option.some.inj
  have sorted := @Keyed.flatMap_filter_perm _ _ _ topicOf? _ distinctTopics methods
  rw [List.flatMap_map] at sorted
  refine sorted.trans (.of_eq (List.filter_congr fun method _ => ?_))
  cases topicOf? method <;> simp

/-- The methods of all topics and those without a topic are all methods, each of them once. -/
theorem topics_append_perm (methods : List Method) :
    ((topics methods).flatMap Prod.snd ++
      methods.filter fun method => (topicOf? method).isNone).Perm methods := by
  have known : (methods.filter fun method => (topicOf? method).any (topicKeys methods).contains) =
      methods.filter fun method => !(topicOf? method).isNone := by
    refine List.filter_congr fun method member => ?_
    cases topic : topicOf? method with
    | none => rfl
    | some key => simpa using mem_topicKeys_iff.mpr ⟨method, member, topic⟩
  rw [topics_eq, List.flatMap_map]
  refine ((flatMap_methodsOn_perm (nodup_topicKeys methods) methods).append_right _).trans ?_
  rw [known]
  exact List.perm_append_comm.trans (List.filter_append_perm _ methods)

/-! ### Fields -/

/-- The names of methods are taken once they are claimed, and no name gets free. -/
theorem claimAll_eq_ok {names after : Allocator} {methods : List Method}
    (claimed : claimAll names methods = .ok after) :
    names.taken ⊆ after.taken ∧ ∀ method ∈ methods, method.name ∈ after.taken := by
  induction methods generalizing names with
  | nil =>
    obtain rfl := Except.ok.inj claimed
    exact ⟨List.Subset.refl _, fun method member => absurd member List.not_mem_nil⟩
  | cons first rest inductionHypothesis =>
    obtain ⟨⟨name, next⟩, given, claimed⟩ := bind_eq_ok.mp claimed
    obtain ⟨kept, each⟩ := inductionHypothesis claimed
    have more : names.taken ⊆ next.taken := by
      rw [(Allocator.claimTiebreak_eq_ok given).2.2]
      exact List.subset_cons_self _ _
    refine ⟨List.Subset.trans more kept, fun method member => ?_⟩
    rcases List.mem_cons.mp member with rfl | later
    · exact kept (Allocator.mem_taken_of_claimTiebreak given)
    · exact each method later

/-- Each group becomes a segment, whose field gets a name that was free. -/
theorem segmentsFor_eq_ok {names : Allocator} {groups : List (String × List Method)}
    {segments : List Segment} (done : segmentsFor names groups = .ok segments) :
    segments.map (fun segment => (segment.key, segment.methods)) = groups ∧
      (segments.map Segment.field).Nodup ∧
      ∀ segment ∈ segments, segment.field ∉ names.taken ∧
        Name.Extends (Name.sanitize segment.key) segment.field := by
  induction groups generalizing names segments with
  | nil =>
    obtain rfl := Except.ok.inj done
    exact ⟨rfl, List.nodup_nil, fun segment member => absurd member List.not_mem_nil⟩
  | cons group rest inductionHypothesis =>
    obtain ⟨key, methods⟩ := group
    obtain ⟨⟨field, next⟩, given, done⟩ := bind_eq_ok.mp done
    obtain ⟨others, further, done⟩ := bind_eq_ok.mp done
    obtain rfl := Except.ok.inj done
    obtain ⟨groups, distinct, fields⟩ := inductionHypothesis further
    obtain ⟨free, extended, rfl⟩ := Allocator.claimTiebreak_eq_ok given
    refine ⟨by rw [List.map_cons, groups], ?_, fun segment member => ?_⟩
    · rw [List.map_cons]
      refine List.nodup_cons.mpr ⟨fun member => ?_, distinct⟩
      obtain ⟨segment, inside, same⟩ := List.mem_map.mp member
      exact (fields segment inside).1 (same ▸ List.mem_cons_self)
    · rcases List.mem_cons.mp member with rfl | later
      · exact ⟨free, extended⟩
      · exact ⟨fun taken => (fields segment later).1 (List.mem_cons_of_mem _ taken),
          (fields segment later).2⟩

/-! ### Partitions -/

section

variable {client : Client} {parts : Partition} {segment : Segment}

/-- The segments of a client are made of its topics, with the names that the methods outside leave. -/
theorem partition_eq_ok (done : partition client = .ok parts) :
    parts.root = client.methods.filter (fun method => (topicOf? method).isNone) ∧
      ∃ names, claimAll .forMethods parts.root = .ok names ∧
        segmentsFor names (topics client.methods) = .ok parts.segments := by
  obtain ⟨names, claimed, done⟩ := bind_eq_ok.mp done
  obtain ⟨segments, made, done⟩ := bind_eq_ok.mp done
  obtain rfl := Except.ok.inj done
  exact ⟨rfl, names, claimed, made⟩

theorem segments_of_partition (done : partition client = .ok parts) :
    parts.segments.map (fun segment => (segment.key, segment.methods)) =
      (topicKeys client.methods).map fun key => (key, methodsOn key client.methods) := by
  obtain ⟨-, names, -, made⟩ := partition_eq_ok done
  rw [(segmentsFor_eq_ok made).1, topics_eq]

theorem keys_of_partition (done : partition client = .ok parts) :
    parts.segments.map Segment.key = topicKeys client.methods := by
  have keys := congrArg (List.map Prod.fst) (segments_of_partition done)
  rw [List.map_map, List.map_map] at keys
  exact keys.trans (List.map_id _)

theorem methods_of_partition (done : partition client = .ok parts) (member : segment ∈ parts.segments) :
    segment.methods = methodsOn segment.key client.methods := by
  have group := List.mem_map_of_mem (f := fun segment => (segment.key, segment.methods)) member
  rw [segments_of_partition done] at group
  obtain ⟨key, -, same⟩ := List.mem_map.mp group
  obtain ⟨rfl, methods⟩ := Prod.mk.inj same
  exact methods.symm

end

/-- How the parts of a client are made up of its methods. -/
structure IsSorted (client : Client) (parts : Partition) : Prop where
  /-- The methods without a topic stay with the client, in its order. -/
  root : parts.root = client.methods.filter fun method => topicOf? method = none
  /-- A segment has the methods of its topic, in the order of the client. -/
  methods : ∀ segment ∈ parts.segments,
    segment.methods = client.methods.filter fun method => topicOf? method = some segment.key
  /-- Every method is in one place, once. -/
  once : (parts.segments.flatMap Segment.methods ++ parts.root).Perm client.methods
  /-- The topics come in the order in which they first appear. -/
  keys : parts.segments.map Segment.key = (client.methods.filterMap topicOf?).eraseDups
  /-- The topics are pairwise different. -/
  keysDistinct : (parts.segments.map Segment.key).Nodup
  /-- The fields are identifiers, and words of the language only where they name a receiver. -/
  fields : ∀ segment ∈ parts.segments, Name.IsIdentifier segment.field ∧
    (Name.isReserved segment.field = true → segment.field ∈ Name.receivers)
  /-- The fields are pairwise different. -/
  fieldsDistinct : (parts.segments.map Segment.field).Nodup
  /-- No field is the name of a method that stays with the client, or of a member that every client
  class has. -/
  fieldsFree : ∀ segment ∈ parts.segments,
    segment.field ∉ parts.root.map Method.name ∧ segment.field ∉ Allocator.clientMembers

/-- Sorting a client by topic puts every method where it belongs. -/
theorem isSorted_of_partition {client : Client} {parts : Partition}
    (done : partition client = .ok parts) : IsSorted client parts := by
  obtain ⟨names, claimed, done⟩ := bind_eq_ok.mp done
  obtain ⟨segments, made, done⟩ := bind_eq_ok.mp done
  obtain rfl := Except.ok.inj done
  obtain ⟨kept, claimed⟩ := claimAll_eq_ok claimed
  obtain ⟨groups, distinct, fields⟩ := segmentsFor_eq_ok made
  have keys : segments.map Segment.key = topicKeys client.methods := by
    have first := congrArg (List.map Prod.fst) groups
    rw [topics_eq, List.map_map, List.map_map] at first
    exact first.trans (List.map_id _)
  refine {
    root := List.filter_congr fun method _ => by cases topicOf? method <;> rfl
    methods := fun segment member => ?_
    once := ?_
    keys := keys
    keysDistinct := keys ▸ nodup_topicKeys client.methods
    fields := fun segment member => ?_
    fieldsDistinct := distinct
    fieldsFree := fun segment member => ?_ }
  · have group : (segment.key, segment.methods) ∈ topics client.methods :=
      groups ▸ List.mem_map_of_mem member
    rw [topics_eq] at group
    obtain ⟨key, -, same⟩ := List.mem_map.mp group
    obtain ⟨rfl, methods⟩ := Prod.mk.inj same
    exact methods.symm
  · have all := topics_append_perm client.methods
    rw [← groups, List.flatMap_map] at all
    exact all
  · obtain ⟨-, extended⟩ := fields segment member
    exact ⟨extended.isIdentifier (Name.isIdentifier_sanitize _), extended.mem_receivers⟩
  · obtain ⟨free, -⟩ := fields segment member
    refine ⟨fun taken => ?_, fun taken => free (kept taken)⟩
    obtain ⟨method, inside, same⟩ := List.mem_map.mp taken
    exact free (same ▸ claimed method inside)

/-- A method that has only a name and, unless it has none, a path. -/
def bareMethod (name : String) (path : Option String) : Method where
  name := name
  parameters := []
  doc := .empty
  marker := path.map (PathMarker.mk .get)
  plan := ⟨.get, path.getD "/", [], [], [], .none⟩
  returnKind := .unknown
  signature := ""
  returnType := "unknown"
  body := []

/-- A client in which names of methods look like fields of segments, and topics come back. -/
def mixedClient : Client where
  className := "MixedClient"
  title := "Mixed"
  baseUrl := ""
  methods := [bareMethod "pet" none, bareMethod "add" (some "/api/v1/pet"),
    bareMethod "headers" (some "/\x7btenant\x7d/x"), bareMethod "remove" (some "/delete/item"),
    bareMethod "pet_2" (some "/"), bareMethod "add" (some "/pet/\x7bid\x7d")]

/-- A topic that names a method gets a number until the field is free, and methods of one topic come
together. -/
theorem isSorted_mixedClient :
    ∃ parts, partition mixedClient = .ok parts ∧
      parts.segments.map (fun segment => (segment.field, segment.methods.map Method.name)) =
        [("pet_3", ["add", "add"]), ("delete_", ["remove"])] ∧
      IsSorted mixedClient parts :=
  ⟨_, rfl, by decide, isSorted_of_partition rfl⟩

end ApiSurface.Client
