/-
This file proves that a copied document is not nested deeper than the limit allows, that it holds no
reference, and that no key repeats in it if none does in the document. The last two are rules on the
keys of single objects, which every merge keeps: the only keys that it makes up are those of the marks.

A mark for a cut stands where the levels have run out and takes one more level for its text, so the
bound for a copy is one more than the levels it was made with.
-/

import ApiSurface.Proofs.Json.Distinct
import ApiSurface.Proofs.OpenApi.Kept

namespace ApiSurface.OpenApi

open Json (Members SitsBelow)

/-! ### References -/

theorem isKeyRule_notMem_reference : IsKeyRule ("$ref" ∉ ·) where
  subperm plain fewer inside := plain (fewer.subset inside)
  concat plain othersPlain inside _ := by
    refine fun reference => (List.mem_append.mp reference).elim plain fun last => othersPlain ?_
    rwa [List.mem_singleton.mp last]
  mark := by decide

/-- Every member of a value that has the key of a reference holds a text. -/
def HasTextReferences (value : Json) : Prop :=
  ∀ below members, SitsBelow value below (.object members) →
    ∀ reference, ("$ref", reference) ∈ members → ∃ text, reference = .text text

theorem HasTextReferences.follows {root : Json} (texts : HasTextReferences root) :
    Follows ("$ref" ∉ ·) root := by
  intro below members inside
  refine ⟨fun beside => ?_, fun plain reference => ?_⟩
  · obtain ⟨member, there, same⟩ := List.mem_map.mp beside
    exact bne_iff_ne.mp (List.mem_filter.mp there).2 same
  · obtain ⟨⟨key, value⟩, member, rfl⟩ := List.mem_map.mp reference
    obtain ⟨first, found⟩ := Members.exists_get?_of_mem member
    obtain ⟨text, rfl⟩ := texts below members inside first (Members.mem_of_get? found)
    rw [referenceOf?, found] at plain
    exact Option.some_ne_none text plain

/-- A copied document holds no member with the key of a reference, and nothing in it sits deeper than
two levels below the depth to which a document is walked. -/
theorem resolve_settled (root : Json) (texts : HasTextReferences root) :
    (∀ below members, SitsBelow (resolve root) below (.object members) →
      ∀ member ∈ members, member.1 ≠ "$ref") ∧
    ∀ below inner, SitsBelow (resolve root) below inner → below ≤ maxDepth + 2 := by
  have kept := isKept_resolve isKeyRule_notMem_reference texts.follows
  refine ⟨fun below members inside member there reference => ?_,
    fun below inner inside => (kept below inner inside).1⟩
  exact (kept below _ inside).2 members rfl (reference ▸ List.mem_map_of_mem there)

/-- A document that is the target of a reference inside of it. -/
def cyclicDocument : Json :=
  .object [("a", .array [.object [("$ref", .text "#"), ("b", .null)]])]

theorem resolve_settled_cyclicDocument :
    HasTextReferences cyclicDocument ∧
      (∀ below members, SitsBelow (resolve cyclicDocument) below (.object members) →
        ∀ member ∈ members, member.1 ≠ "$ref") ∧
      ∀ below inner, SitsBelow (resolve cyclicDocument) below inner → below ≤ maxDepth + 2 := by
  have texts : HasTextReferences cyclicDocument := by
    intro below members inside reference member
    cases inside with
    | here =>
      exact absurd (Prod.mk.inj (List.mem_singleton.mp member)).1 (by decide)
    | member there further =>
      obtain ⟨-, rfl⟩ := Prod.mk.inj (List.mem_singleton.mp there)
      cases further with
      | item there further =>
        obtain rfl := List.mem_singleton.mp there
        cases further with
        | here =>
          rcases List.mem_cons.mp member with same | later
          · exact ⟨"#", congrArg Prod.snd same⟩
          · exact absurd (Prod.mk.inj (List.mem_singleton.mp later)).1 (by decide)
        | member there further =>
          rcases List.mem_cons.mp there with same | later
          · obtain ⟨-, rfl⟩ := Prod.mk.inj same
            cases further
          · obtain ⟨-, rfl⟩ := Prod.mk.inj (List.mem_singleton.mp later)
            cases further
  exact ⟨texts, resolve_settled cyclicDocument texts⟩

/-! ### Repeated keys -/

theorem isKeyRule_nodup : IsKeyRule List.Nodup where
  subperm distinct fewer := by
    obtain ⟨ordered, same, inside⟩ := fewer
    exact same.nodup_iff.mp (distinct.sublist inside)
  concat distinct _ _ new := List.nodup_append.mpr
    ⟨distinct, List.nodup_singleton _, fun _ known _ last same =>
      new (List.mem_singleton.mp last ▸ same ▸ known)⟩
  mark _ _ := List.nodup_singleton _

theorem follows_nodup {root : Json} (distinct : root.HasDistinctKeys) : Follows List.Nodup root :=
  fun below members inside =>
    ⟨(distinct below members inside).sublist (List.filter_sublist.map Prod.fst),
      fun _ => distinct below members inside⟩

/-- A copied document repeats no key of an object if the document repeats none, and nothing in it sits
deeper than two levels below the depth to which a document is walked. -/
theorem resolve_distinct {root : Json} (distinct : root.HasDistinctKeys) :
    (resolve root).HasDistinctKeys ∧
      ∀ below inner, SitsBelow (resolve root) below inner → below ≤ maxDepth + 2 := by
  have kept := isKept_resolve isKeyRule_nodup (follows_nodup distinct)
  exact ⟨fun below members inside => (kept below _ inside).2 members rfl,
    fun below inner inside => (kept below inner inside).1⟩

end ApiSurface.OpenApi
