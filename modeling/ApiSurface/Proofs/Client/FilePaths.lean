/-
This file proves when the files of a client have paths of their own. The files of segments are the only
ones in a directory, and there each topic has its own. Beside this directory stand the file of the
client, its intermediate form and, if the client is split, the shared support. The support is always in
`runtime.ts`, so a split client must not be called `runtime` itself; nothing else can go wrong.
-/

import ApiSurface.Proofs.Client.ClassNames
import ApiSurface.Proofs.Client.ClassText

namespace ApiSurface.Client

/-! ### What is written -/

/-- The path of the file of a topic. -/
def segmentPath (key : String) : String :=
  "segments/" ++ key ++ ".ts"

/-- The paths of the files that are in no directory. -/
def plainPaths (stem : String) (split stored : Bool) : List String :=
  [stem ++ ".ts"] ++ (if split then ["runtime.ts"] else []) ++
    (if stored then [stem ++ "." ++ storedEnding] else [])

/-- The paths of the files of segments. -/
def segmentPaths (client : Client) (split : Bool) : List String :=
  if split then (topicKeys client.methods).map segmentPath else []

section

variable {client : Client} {parts : Partition} {stem : String} {split stored : Bool}
  {files : List GeneratedFile}

theorem files_eq (client : Client) (stem : String) (split stored : Bool) :
    client.files stem split stored =
      (if split then client.splitFiles stem
        else client.render >>= fun text => .ok [⟨stem ++ ".ts", text⟩]) >>= fun sources =>
      .ok (sources ++ if stored then [client.storedFile stem] else []) := by
  unfold Client.files
  cases split with
  | false => cases client.render <;> rfl
  | true => rfl

/-- A client can be written unless it is to be split and its methods cannot be sorted by topic. -/
theorem exists_files_iff : (∃ files, client.files stem split stored = .ok files) ↔
    (split = true → ∃ parts, partition client = .ok parts) := by
  constructor
  · rintro ⟨files, returned⟩ rfl
    rw [files_eq] at returned
    obtain ⟨sources, written, -⟩ := bind_eq_ok.mp returned
    obtain ⟨parts, done, -⟩ := bind_eq_ok.mp written
    exact ⟨parts, done⟩
  · intro sorted
    rw [files_eq]
    cases split with
    | false =>
      obtain ⟨support, -, rendered⟩ := exists_render_eq client
      exact ⟨_, bind_eq_ok.mpr ⟨_, bind_eq_ok.mpr ⟨_, rendered, rfl⟩, rfl⟩⟩
    | true =>
      obtain ⟨parts, done⟩ := sorted rfl
      obtain ⟨support, -, whole⟩ := exists_splitFiles_eq done stem
      exact ⟨_, bind_eq_ok.mpr ⟨_, whole, rfl⟩⟩

/-- The paths of the files of a client, in another order. -/
theorem paths_perm (returned : client.files stem split stored = .ok files) :
    (files.map GeneratedFile.path).Perm
      (plainPaths stem split stored ++ segmentPaths client split) := by
  have kept : (if stored then [client.storedFile stem] else []).map GeneratedFile.path =
      if stored then [stem ++ "." ++ storedEnding] else [] := by
    cases stored <;> rfl
  rw [files_eq] at returned
  obtain ⟨sources, written, returned⟩ := bind_eq_ok.mp returned
  obtain rfl := Except.ok.inj returned
  rw [List.map_append, kept, plainPaths, segmentPaths]
  cases split with
  | false =>
    obtain ⟨text, -, written⟩ := bind_eq_ok.mp written
    obtain rfl := Except.ok.inj written
    exact .of_eq (List.append_nil _).symm
  | true =>
    obtain ⟨parts, done, -⟩ := bind_eq_ok.mp written
    obtain ⟨support, -, whole⟩ := exists_splitFiles_eq done stem
    obtain rfl := Except.ok.inj (whole.symm.trans written)
    have paths : (splitSources client stem parts support).map GeneratedFile.path =
        [stem ++ ".ts"] ++ (topicKeys client.methods).map segmentPath ++ ["runtime.ts"] := by
      unfold splitSources
      rw [← keys_of_partition done, List.map_append, List.map_cons, List.map_map, List.map_map]
      rfl
    rw [paths, if_pos rfl, if_pos rfl]
    refine List.perm_iff_count.mpr fun path => ?_
    simp only [List.count_append]
    omega

end

/-! ### Paths apart -/

theorem segmentPath_injective : Function.Injective segmentPath := fun _ _ same =>
  (String.append_right_inj _).mp ((String.append_left_inj _).mp same)

theorem slash_mem_segmentPath (key : String) : '/' ∈ (segmentPath key).toList := by
  unfold segmentPath
  rw [String.toList_append, String.toList_append, List.append_assoc]
  exact List.mem_append_left _ (by decide)

theorem slash_notMem_of_mem_plainPaths {stem path : String} {split stored : Bool}
    (plain : '/' ∉ stem.toList) (member : path ∈ plainPaths stem split stored) :
    '/' ∉ path.toList := by
  have named {ending : String} (unslashed : '/' ∉ ending.toList) : '/' ∉ (stem ++ ending).toList := by
    rw [String.toList_append, List.mem_append]
    exact fun either => either.elim plain unslashed
  rcases List.mem_append.mp member with member | member
  · rcases List.mem_append.mp member with member | member
    · rw [List.mem_singleton.mp member]
      exact named (by decide)
    · cases split with
      | false => cases member
      | true =>
        rw [List.mem_singleton.mp member]
        decide
  · cases stored with
    | false => cases member
    | true =>
      rw [List.mem_singleton.mp member, String.append_assoc]
      exact named (by decide)

theorem nodup_plainPaths_iff (stem : String) (split stored : Bool) :
    (plainPaths stem split stored).Nodup ↔ ¬ (split = true ∧ stem = "runtime") := by
  have support : stem ++ ".ts" = "runtime" ++ ".ts" ↔ stem = "runtime" := String.append_left_inj ".ts"
  rw [show "runtime" ++ ".ts" = "runtime.ts" from rfl] at support
  have own : stem ++ ".ts" ≠ stem ++ "." ++ storedEnding := by
    rw [String.append_assoc, Ne, String.append_right_inj]
    decide
  have apart : "runtime.ts" ≠ stem ++ "." ++ storedEnding := by
    intro same
    have last := congrArg (fun path : String => path.toList.getLast?) same
    rw [String.toList_append, List.getLast?_append] at last
    exact absurd (show some 's' = some 'n' from last) (by decide)
  cases split <;> cases stored <;> simp [plainPaths, support, own, apart]

/-- The files of a client that is named without a directory have paths of their own unless the client is
split and named like the shared support. -/
theorem nodup_paths_iff {client : Client} {stem : String} {split stored : Bool}
    {files : List GeneratedFile} (plain : '/' ∉ stem.toList)
    (returned : client.files stem split stored = .ok files) :
    (files.map GeneratedFile.path).Nodup ↔ ¬ (split = true ∧ stem = "runtime") := by
  have topics : (segmentPaths client split).Nodup := by
    cases split with
    | false => exact List.nodup_nil
    | true => exact (nodup_topicKeys client.methods).map segmentPath_injective
  have apart : (plainPaths stem split stored).Disjoint (segmentPaths client split) := by
    intro path member inside
    cases split with
    | false => cases inside
    | true =>
      obtain ⟨key, -, rfl⟩ := List.mem_map.mp inside
      exact slash_notMem_of_mem_plainPaths plain member (slash_mem_segmentPath key)
  rw [(paths_perm returned).nodup_iff, ← nodup_plainPaths_iff stem split stored]
  exact ⟨fun distinct => (List.nodup_append.mp distinct).1, fun distinct => distinct.append topics apart⟩

/-- What a split client writes in one directory and beside it is kept apart. -/
theorem nodup_paths_iff_crossedNames : ∃ document client parts files,
    OpenApi.Document.ofJson (listedDescription [("/runtime", "a"), ("/index", "b")]) = .ok document ∧
    generate document {} = .ok client ∧ partition client = .ok parts ∧
    '/' ∉ "index".toList ∧ client.files "index" true true = .ok files ∧
    (files.map GeneratedFile.path).Perm ["index.ts", "runtime.ts", "index.apiforge.json",
      "segments/runtime.ts", "segments/index.ts"] ∧
    (files.map GeneratedFile.path).Nodup := by
  obtain ⟨document, client, parts, read, generated, done, segments⟩ :=
    exists_split_of_computed (listedDescription [("/runtime", "a"), ("/index", "b")])
      (fun client _ => segmentPaths client true) ["segments/runtime.ts", "segments/index.ts"] rfl
  obtain ⟨files, returned⟩ := exists_files_iff.mpr fun _ : true = true => ⟨parts, done⟩
  have paths := paths_perm returned
  rw [segments] at paths
  exact ⟨document, client, parts, files, read, generated, done, by decide, returned, paths,
    (nodup_paths_iff (by decide) returned).mpr (by decide)⟩

/-- A split client that is named like the shared support is overwritten by it. -/
theorem exists_paths_repeat : ∃ document client files,
    OpenApi.Document.ofJson (listedDescription []) = .ok document ∧
    generate document {} = .ok client ∧
    '/' ∉ "runtime".toList ∧ client.files "runtime" true false = .ok files ∧
    (files.map GeneratedFile.path).Perm ["runtime.ts", "runtime.ts"] ∧
    ¬ (files.map GeneratedFile.path).Nodup := by
  obtain ⟨document, client, parts, read, generated, done, segments⟩ :=
    exists_split_of_computed (listedDescription [])
      (fun client _ => segmentPaths client true) [] rfl
  obtain ⟨files, returned⟩ := exists_files_iff.mpr fun _ : true = true => ⟨parts, done⟩
  have paths := paths_perm returned
  rw [segments] at paths
  refine ⟨document, client, files, read, generated, by decide, returned, paths, ?_⟩
  rw [paths.nodup_iff]
  decide

end ApiSurface.Client
