/-
This file proves that the classes of a split client declare their members once. The names of methods and
of fields are identifiers that come from allocators, so they differ from each other and from the members
that every client class has, and no identifier starts with an underscore as the methods that send
requests do. A segment has one more member, the client that it belongs to, and for this name nothing is
kept free: a method that is called `client` is the one way in which a class declares a member twice.
-/

import ApiSurface.Proofs.Client.ClassNames
import ApiSurface.Proofs.Client.ClassText
import ApiSurface.Proofs.Client.Documentation

namespace ApiSurface.Client

open Name (Allocator)

/-! ### Names of members -/

/-- The names of the methods that send requests. -/
def transportNames : List String :=
  transportVerbs.map fun verb => "_" ++ verb.lower

theorem notMem_transportNames {name : String} (identifier : Name.IsIdentifier name) :
    name ∉ transportNames := by
  have each : ∀ known ∈ transportNames, known.toList.head? = some '_' := by decide
  exact fun member => identifier.head?_ne_underscore (each name member)

theorem names_rootMembers (client : Client) (segments : List Segment) (methods : List Method) :
    (rootMembers client segments methods).map Member.name =
      segments.map Segment.field ++ ["constructor", "baseUrl", "headers"] ++ transportNames ++
        methods.map Method.name ++ ["list_tools"] := by
  unfold rootMembers transportNames
  simp only [List.map_append, List.map_map, List.map_cons, List.map_nil]
  rfl

theorem names_segmentMembers (client : Client) (segment : Segment) :
    (segmentMembers client segment).map Member.name =
      ["constructor", "client"] ++ transportNames ++ segment.methods.map Method.name ++
        ["list_tools"] := by
  unfold segmentMembers transportNames
  simp only [List.map_append, List.map_map, List.map_cons, List.map_nil]
  rfl

/-- Identifiers that are no members of every client class can stand beside these members and beside the
methods that send requests. -/
theorem nodup_append_of_free {names : List String} (distinct : names.Nodup)
    (free : ∀ name ∈ names, Name.IsIdentifier name ∧ name ∉ Allocator.clientMembers) :
    (Allocator.clientMembers ++ transportNames ++ names).Nodup := by
  have fixed : (Allocator.clientMembers ++ transportNames).Nodup := by decide
  refine fixed.append distinct fun name known inside => ?_
  obtain ⟨identifier, apart⟩ := free name inside
  exact (List.mem_append.mp known).elim apart (notMem_transportNames identifier)

theorem names_rootMembers_perm (client : Client) (segments : List Segment) (methods : List Method) :
    ((rootMembers client segments methods).map Member.name).Perm
      (Allocator.clientMembers ++ transportNames ++
        (segments.map Segment.field ++ methods.map Method.name)) := by
  have members : Allocator.clientMembers.Perm (["constructor", "baseUrl", "headers"] ++ ["list_tools"]) := by
    decide
  rw [names_rootMembers]
  refine List.perm_iff_count.mpr fun name => ?_
  simp only [List.count_append, members.count_eq]
  omega

theorem names_segmentMembers_perm (client : Client) (segment : Segment) :
    ((segmentMembers client segment).map Member.name).Perm
      ("client" :: (["constructor", "list_tools"] ++ transportNames ++
        segment.methods.map Method.name)) := by
  rw [names_segmentMembers]
  refine List.perm_iff_count.mpr fun name => ?_
  simp only [List.count_append, List.count_cons, List.count_nil]
  omega

/-! ### Methods and fields -/

section

variable {document : OpenApi.Document} {config : Config} {client : Client} {parts : Partition}
  {method : Method} {segment : Segment}

/-- The name of a method is an identifier and no member that every client class has. -/
theorem isFree_of_mem_methods (generated : generate document config = .ok client)
    (member : method ∈ client.methods) :
    Name.IsIdentifier method.name ∧ method.name ∉ Allocator.clientMembers := by
  rw [methods_eq_outcomes generated] at member
  obtain ⟨before, operation, -, becomes⟩ := (accounts_outcomes [] _).exists_becomes member
  obtain ⟨identifier, -, free⟩ := becomes.name
  exact ⟨identifier, fun taken => free (List.mem_append_right _ taken)⟩

/-- The names that the class of a client declares beside its fixed members are pairwise different
identifiers, and none of these members. -/
theorem isFree_root (generated : generate document config = .ok client)
    (done : partition client = .ok parts) :
    (parts.segments.map Segment.field ++ parts.root.map Method.name).Nodup ∧
      ∀ name ∈ parts.segments.map Segment.field ++ parts.root.map Method.name,
        Name.IsIdentifier name ∧ name ∉ Allocator.clientMembers := by
  obtain ⟨root, names, claimed, made⟩ := partition_eq_ok done
  obtain ⟨kept, known⟩ := claimAll_eq_ok claimed
  obtain ⟨-, distinct, fields⟩ := segmentsFor_eq_ok made
  have inside : parts.root.Sublist client.methods := by
    rw [root]
    exact List.filter_sublist
  constructor
  · refine distinct.append ((nodup_methodNames generated).sublist (inside.map Method.name)) ?_
    intro name field called
    obtain ⟨segment, member, rfl⟩ := List.mem_map.mp field
    obtain ⟨method, further, same⟩ := List.mem_map.mp called
    exact (fields segment member).1 (same ▸ known method further)
  · intro name either
    rcases List.mem_append.mp either with field | called
    · obtain ⟨segment, member, rfl⟩ := List.mem_map.mp field
      obtain ⟨free, extended⟩ := fields segment member
      exact ⟨extended.isIdentifier (Name.isIdentifier_sanitize _), fun taken => free (kept taken)⟩
    · obtain ⟨method, further, rfl⟩ := List.mem_map.mp called
      exact isFree_of_mem_methods generated (inside.subset further)

theorem isFree_segment (generated : generate document config = .ok client)
    (done : partition client = .ok parts) (member : segment ∈ parts.segments) :
    (segment.methods.map Method.name).Nodup ∧
      ∀ name ∈ segment.methods.map Method.name,
        Name.IsIdentifier name ∧ name ∉ Allocator.clientMembers := by
  have inside : segment.methods.Sublist client.methods := by
    rw [methods_of_partition done member]
    exact List.filter_sublist
  refine ⟨(nodup_methodNames generated).sublist (inside.map Method.name), fun name called => ?_⟩
  obtain ⟨method, further, rfl⟩ := List.mem_map.mp called
  exact isFree_of_mem_methods generated (inside.subset further)

/-! ### Classes -/

/-- What is known about the members of the classes of a split client. -/
structure DeclaresMembers (client : Client) (parts : Partition) : Prop where
  /-- The files hold the classes with these members, whatever the file of the client is called. -/
  files : ∀ stem, ∃ support, client.splitFiles stem = .ok (splitSources client stem parts support)
  /-- The class of the client declares no member twice. -/
  root : ((rootMembers client parts.segments parts.root).map Member.name).Nodup
  /-- The class of a segment declares no member twice unless one of its methods is called `client`. -/
  segments : ∀ segment ∈ parts.segments, ((segmentMembers client segment).map Member.name).Nodup ↔
    "client" ∉ segment.methods.map Method.name

/-- The members of the classes of a split client. -/
theorem declaresMembers_of_generate (generated : generate document config = .ok client)
    (done : partition client = .ok parts) : DeclaresMembers client parts := by
  refine { files := fun stem => ?_, root := ?_, segments := fun segment member => ?_ }
  · obtain ⟨support, -, written⟩ := exists_splitFiles_eq done stem
    exact ⟨support, written⟩
  · obtain ⟨distinct, free⟩ := isFree_root generated done
    exact (names_rootMembers_perm client _ _).nodup_iff.mpr (nodup_append_of_free distinct free)
  · obtain ⟨distinct, free⟩ := isFree_segment generated done member
    have others : (["constructor", "list_tools"] ++ transportNames ++
        segment.methods.map Method.name).Nodup := by
      refine (nodup_append_of_free distinct free).sublist (List.Sublist.append_right ?_ _)
      exact List.Sublist.append_right (by decide) _
    have fixed : "client" ∉ ["constructor", "list_tools"] ++ transportNames := by decide
    rw [(names_segmentMembers_perm client segment).nodup_iff, List.nodup_cons, List.mem_append]
    constructor
    · exact fun once called => once.1 (.inr called)
    · exact fun uncalled => ⟨fun either => either.elim fixed uncalled, others⟩

end

/-- The names of the members of all classes of a split client, those of the client first. -/
def memberNames (client : Client) (parts : Partition) : List (List String) :=
  (rootMembers client parts.segments parts.root).map Member.name ::
    parts.segments.map fun segment => (segmentMembers client segment).map Member.name

/-- A topic and operations that are called like members still give members of their own. -/
theorem declaresMembers_of_generate_crowded : ∃ document client parts,
    OpenApi.Document.ofJson (listedDescription
      [("/headers", "listTools"), ("/\x7bid\x7d", "headers"), ("/headers/x", "get")]) = .ok document ∧
    generate document {} = .ok client ∧ partition client = .ok parts ∧
    memberNames client parts = [
      ["headers_3", "constructor", "baseUrl", "headers"] ++ transportNames ++
        ["headers_2", "list_tools"],
      ["constructor", "client"] ++ transportNames ++ ["list_tools_2", "get_", "list_tools"]] ∧
    DeclaresMembers client parts := by
  obtain ⟨document, client, parts, read, generated, done, named⟩ :=
    exists_split_of_computed (listedDescription
        [("/headers", "listTools"), ("/\x7bid\x7d", "headers"), ("/headers/x", "get")]) memberNames
      [["headers_3", "constructor", "baseUrl", "headers"] ++ transportNames ++
          ["headers_2", "list_tools"],
        ["constructor", "client"] ++ transportNames ++ ["list_tools_2", "get_", "list_tools"]] rfl
  exact ⟨document, client, parts, read, generated, done, named,
    declaresMembers_of_generate generated done⟩

/-- An operation that is called `client` gives the class of its segment a second member of this name. -/
theorem exists_member_declared_twice : ∃ document client parts,
    OpenApi.Document.ofJson (listedDescription [("/pets", "client")]) = .ok document ∧
    generate document {} = .ok client ∧ partition client = .ok parts ∧
    memberNames client parts = [
      ["pets", "constructor", "baseUrl", "headers"] ++ transportNames ++ ["list_tools"],
      ["constructor", "client"] ++ transportNames ++ ["client", "list_tools"]] ∧
    ¬ ∀ names ∈ memberNames client parts, names.Nodup := by
  obtain ⟨document, client, parts, read, generated, done, named⟩ :=
    exists_split_of_computed (listedDescription [("/pets", "client")]) memberNames
      [["pets", "constructor", "baseUrl", "headers"] ++ transportNames ++ ["list_tools"],
        ["constructor", "client"] ++ transportNames ++ ["client", "list_tools"]] rfl
  refine ⟨document, client, parts, read, generated, done, named, ?_⟩
  rw [named]
  decide

end ApiSurface.Client
