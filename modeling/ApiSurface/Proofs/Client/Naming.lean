/-
This file proves what naming declared parameters gives. Each declaration becomes one parameter, in
order, under an identifier that was free; so the names of a method are pairwise different, and none of
them is a word of the language or the name of a receiver. Naming fails only when no name is free.
-/

import ApiSurface.Client.Build
import ApiSurface.Proofs.Fault
import ApiSurface.Proofs.Name.Allocator
import Mathlib.Data.List.Forall2
import Mathlib.Data.List.Nodup

namespace ApiSurface.Client

open Name (Allocator)

/-! ### Named parameters -/

/-- A parameter that stands for a declaration in a place, under an extension of its identifier. -/
def IsNamed (location : Location) (raw : Operation.Parameter) (parameter : Parameter) : Prop :=
  parameter = named parameter.internal location raw ∧
    Name.Extends (Name.sanitize raw.name) parameter.internal

section

variable {location : Location} {raw : Operation.Parameter} {parameter : Parameter}

theorem IsNamed.location_eq (stands : IsNamed location raw parameter) :
    parameter.location = location := by
  rw [stands.1]
  rfl

theorem IsNamed.isIdentifier (stands : IsNamed location raw parameter) :
    Name.IsIdentifier parameter.internal :=
  stands.2.isIdentifier (Name.isIdentifier_sanitize raw.name)

/-- Only the name of a receiver can be a reserved word. -/
theorem IsNamed.mem_receivers (stands : IsNamed location raw parameter)
    (reserved : Name.isReserved parameter.internal = true) : parameter.internal ∈ Name.receivers :=
  stands.2.mem_receivers reserved

end

/-- Each declaration becomes one parameter, and the names that they get are taken from those that were
free. -/
theorem nameAll_eq_ok {location : Location} {names after : Allocator}
    {raws : List Operation.Parameter} {parameters : List Parameter}
    (done : nameAll location names raws = .ok (parameters, after)) :
    List.Forall₂ (IsNamed location) raws parameters ∧
      after.taken = (parameters.map Parameter.internal).reverse ++ names.taken ∧
      (names.taken.Nodup → after.taken.Nodup) := by
  induction raws generalizing names parameters with
  | nil =>
    obtain ⟨rfl, rfl⟩ := Prod.mk.inj (Except.ok.inj done)
    exact ⟨.nil, rfl, id⟩
  | cons raw rest inductionHypothesis =>
    obtain ⟨⟨internal, next⟩, claimed, done⟩ := bind_eq_ok.mp done
    obtain ⟨⟨others, last⟩, further, done⟩ := bind_eq_ok.mp done
    obtain ⟨rfl, rfl⟩ := Prod.mk.inj (Except.ok.inj done)
    obtain ⟨free, extended, taken⟩ := Allocator.claim_eq_ok claimed
    obtain ⟨each, all, distinct⟩ := inductionHypothesis further
    refine ⟨.cons ⟨rfl, extended⟩ each, ?_, fun before => distinct ?_⟩
    · rw [all, taken, List.map_cons, List.reverse_cons, List.append_assoc]
      rfl
    · rw [taken]
      exact List.nodup_cons.mpr ⟨free, before⟩

/-- The identifier of each declaration is taken afterwards, whichever parameter has it. -/
theorem mem_taken_of_nameAll {location : Location} {names after : Allocator}
    {raws : List Operation.Parameter} {parameters : List Parameter}
    (done : nameAll location names raws = .ok (parameters, after)) :
    ∀ raw ∈ raws, Name.sanitize raw.name ∈ after.taken := by
  induction raws generalizing names parameters with
  | nil => exact fun _ member => absurd member List.not_mem_nil
  | cons raw rest inductionHypothesis =>
    obtain ⟨⟨internal, next⟩, claimed, done⟩ := bind_eq_ok.mp done
    obtain ⟨⟨others, last⟩, further, done⟩ := bind_eq_ok.mp done
    obtain ⟨rfl, rfl⟩ := Prod.mk.inj (Except.ok.inj done)
    obtain ⟨-, all, -⟩ := nameAll_eq_ok further
    refine List.forall_mem_cons.mpr ⟨?_, inductionHypothesis further⟩
    rw [all]
    exact List.mem_append_right _ (Allocator.mem_taken_of_claim claimed)

/-- Naming fails only because no name is free. -/
theorem nameAll_eq_error {location : Location} {names : Allocator} {raws : List Operation.Parameter}
    {fault : Fault} (failed : nameAll location names raws = .error fault) :
    fault.isNameCollision = true := by
  induction raws generalizing names with
  | nil => cases failed
  | cons raw rest inductionHypothesis =>
    rcases bind_eq_error.mp failed with claiming | ⟨⟨internal, next⟩, -, failed⟩
    · exact Allocator.claim_eq_error claiming
    · rcases bind_eq_error.mp failed with naming | ⟨⟨others, last⟩, -, failed⟩
      · exact inductionHypothesis naming
      · cases failed

end ApiSurface.Client
