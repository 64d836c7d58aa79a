/-
This file proves which methods a client has. Every operation of the document is looked at once, in the
order of the document, and becomes a method exactly if it can be sorted out, if its parameters get
names, and if a name is free among those of the methods before it. An operation that does not become a
method changes nothing for those after it. Whatever can go wrong on the way concerns one operation, so
a client is always made.
-/

import ApiSurface.Client.Generate
import ApiSurface.Proofs.Client.Coherence
import ApiSurface.Proofs.Operation.Extraction
import Mathlib.Data.List.ReduceOption

namespace ApiSurface.Client

open Name (Allocator)

/-! ### One operation -/

/-- The names that are taken when a client has the given methods. -/
def namesWith (methods : List Method) : Allocator :=
  ⟨(methods.map Method.name).reverse ++ Allocator.clientMembers⟩

/-- An operation becomes a method of a client that has the given methods already: it can be sorted out,
the method can be made, and the method has got the first free name. -/
def Becomes (present : List Method) (operation : Operation) (method : Method) : Prop :=
  ∃ extracted built after,
    operation.extract = .ok extracted ∧ buildMethod extracted = .ok built ∧
      (namesWith present).claimTiebreak built.name = .ok (method.name, after) ∧
      method = { built with name := method.name }

theorem methodFor_eq_ok_iff {present : List Method} {operation : Operation} {method : Method}
    {after : Allocator} :
    methodFor (namesWith present) operation = .ok (method, after) ↔
      Becomes present operation method ∧ after = namesWith (present ++ [method]) := by
  have taken : namesWith (present ++ [method]) = (namesWith present).take method.name := by
    rw [namesWith, List.map_append, List.reverse_append]
    rfl
  constructor
  · intro made
    obtain ⟨extracted, extracts, made⟩ := bind_eq_ok.mp made
    obtain ⟨built, builds, made⟩ := bind_eq_ok.mp made
    obtain ⟨⟨name, names⟩, claimed, made⟩ := bind_eq_ok.mp made
    obtain ⟨rfl, rfl⟩ := Prod.mk.inj (Except.ok.inj made)
    exact ⟨⟨extracted, built, names, extracts, builds, claimed, rfl⟩,
      (Allocator.claimTiebreak_eq_ok claimed).2.2.trans taken.symm⟩
  · rintro ⟨⟨extracted, built, names, extracts, builds, claimed, whole⟩, rfl⟩
    rw [taken, ← (Allocator.claimTiebreak_eq_ok claimed).2.2]
    refine bind_eq_ok.mpr ⟨extracted, extracts, bind_eq_ok.mpr ⟨built, builds,
      bind_eq_ok.mpr ⟨_, claimed, ?_⟩⟩⟩
    exact congrArg (fun made => Except.ok (made, names)) whole.symm

/-- An operation does not become a method only for a reason of its own. -/
theorem methodFor_eq_error {names : Allocator} {operation : Operation} {fault : Fault}
    (failed : methodFor names operation = .error fault) : fault.isOperationScoped = true := by
  rcases bind_eq_error.mp failed with extracting | ⟨_, -, failed⟩
  · exact Operation.isOperationScoped_of_extract extracting
  rcases bind_eq_error.mp failed with building | ⟨_, -, failed⟩
  · exact Fault.isOperationScoped_of_isNameCollision (buildMethod_eq_error building)
  rcases bind_eq_error.mp failed with claiming | ⟨_, -, failed⟩
  · exact Fault.isOperationScoped_of_isNameCollision (Allocator.claimTiebreak_eq_error claiming)
  · cases failed

/-- The name of a method is an identifier, a word of the language only if it names a receiver, and none
that was taken. -/
theorem Becomes.name {present : List Method} {operation : Operation} {method : Method}
    (becomes : Becomes present operation method) :
    Name.IsIdentifier method.name ∧
      (Name.isReserved method.name = true → method.name ∈ Name.receivers) ∧
      method.name ∉ (namesWith present).taken := by
  obtain ⟨extracted, built, after, -, builds, claimed, -⟩ := becomes
  obtain ⟨free, extended, -⟩ := Allocator.claimTiebreak_eq_ok claimed
  obtain ⟨inPath, inQuery, inBody, -, -, -, -, -, rfl⟩ := buildMethod_eq_ok builds
  obtain ⟨text, same⟩ := Name.exists_sanitize_eq_ofOperation extracted.identifier extracted.verb
    extracted.path
  rw [show (assembled extracted inPath inQuery inBody).name = Name.sanitize text from same.symm]
    at extended
  exact ⟨extended.isIdentifier (Name.isIdentifier_sanitize text), extended.mem_receivers, free⟩

/-- A method calls the operation that it was made for. -/
theorem Becomes.calls {present : List Method} {operation : Operation} {method : Method}
    (becomes : Becomes present operation method) :
    method.marker = some ⟨operation.verb, operation.path⟩ ∧ method.plan.verb = operation.verb ∧
      method.plan.path = operation.path := by
  obtain ⟨extracted, built, after, extracts, builds, -, whole⟩ := becomes
  obtain ⟨verb, path, -, -⟩ := Operation.extract_eq_ok extracts
  obtain ⟨inPath, inQuery, inBody, -, -, -, -, -, rfl⟩ := buildMethod_eq_ok builds
  rw [whole, ← verb, ← path]
  exact ⟨rfl, rfl, rfl⟩

/-! ### All operations -/

/-- What becomes of operations one after the other: a method, or nothing. -/
def outcomes (names : Allocator) : List Operation → List (Option Method)
  | [] => []
  | operation :: rest =>
    match methodFor names operation with
    | .ok (method, names) => some method :: outcomes names rest
    | .error _ => none :: outcomes names rest

/-- Making methods never fails, because an operation that fails is left out. -/
theorem methodsFor_eq (names : Allocator) (operations : List Operation) :
    methodsFor names operations = .ok (outcomes names operations).reduceOption := by
  induction operations generalizing names with
  | nil => rfl
  | cons operation rest inductionHypothesis =>
    unfold methodsFor outcomes
    cases made : methodFor names operation with
    | ok result =>
      dsimp only
      rw [inductionHypothesis, List.reduceOption_cons_of_some]
      rfl
    | error fault =>
      dsimp only
      rw [if_pos (methodFor_eq_error made), inductionHypothesis, List.reduceOption_cons_of_none]

/-- How outcomes account for operations, beside methods that a client has already. -/
structure Accounts (present : List Method) (operations : List Operation)
    (outcomes : List (Option Method)) : Prop where
  /-- Each operation has one outcome. -/
  length_eq : outcomes.length = operations.length
  /-- It is a method exactly if the operation becomes that method after those before it. -/
  outcome : ∀ index operation, operations[index]? = some operation → ∀ method,
    outcomes[index]? = some (some method) ↔
      Becomes (present ++ (outcomes.take index).reduceOption) operation method

theorem accounts_nil (present : List Method) : Accounts present [] [] where
  length_eq := rfl
  outcome index operation found := by cases found

theorem Accounts.cons {present : List Method} {operation : Operation} {rest : List Operation}
    {first : Option Method} {others : List (Option Method)}
    (stands : ∀ method, first = some method ↔ Becomes present operation method)
    (accounts : Accounts (present ++ first.toList) rest others) :
    Accounts present (operation :: rest) (first :: others) where
  length_eq := by rw [List.length_cons, List.length_cons, accounts.length_eq]
  outcome := by
    intro index wanted found method
    cases index with
    | zero =>
      obtain rfl := Option.some.inj found
      rw [List.take_zero, List.reduceOption_nil, List.append_nil, List.getElem?_cons_zero,
        Option.some.injEq]
      exact stands method
    | succ index =>
      rw [List.getElem?_cons_succ] at found ⊢
      have before : (List.take (index + 1) (first :: others)).reduceOption =
          first.toList ++ (others.take index).reduceOption := by
        cases first <;> rfl
      rw [before, ← List.append_assoc]
      exact accounts.outcome index wanted found method

theorem accounts_outcomes (present : List Method) (operations : List Operation) :
    Accounts present operations (outcomes (namesWith present) operations) := by
  induction operations generalizing present with
  | nil => exact accounts_nil present
  | cons operation rest inductionHypothesis =>
    unfold outcomes
    cases made : methodFor (namesWith present) operation with
    | ok result =>
      obtain ⟨becomes, after⟩ := methodFor_eq_ok_iff.mp made
      refine .cons (fun method => ⟨?_, fun other => ?_⟩) ?_
      · rintro ⟨⟩
        exact becomes
      · have again := (methodFor_eq_ok_iff.mpr ⟨other, rfl⟩).symm.trans made
        exact congrArg (some ·.1) (Except.ok.inj again).symm
      · rw [after]
        exact inductionHypothesis _
    | error fault =>
      refine .cons (fun method => ⟨fun same => (Option.some_ne_none _ same.symm).elim, fun other => ?_⟩) ?_
      · cases (methodFor_eq_ok_iff.mpr ⟨other, rfl⟩).symm.trans made
      · rw [Option.toList_none, List.append_nil]
        exact inductionHypothesis _

/-- The methods that operations become have pairwise different names, none of them taken before. -/
theorem nodup_taken_outcomes {present : List Method} (operations : List Operation)
    (distinct : (namesWith present).taken.Nodup) :
    (namesWith (present ++ (outcomes (namesWith present) operations).reduceOption)).taken.Nodup := by
  induction operations generalizing present with
  | nil =>
    rw [outcomes, List.reduceOption_nil, List.append_nil]
    exact distinct
  | cons operation rest inductionHypothesis =>
    unfold outcomes
    cases made : methodFor (namesWith present) operation with
    | ok result =>
      obtain ⟨becomes, after⟩ := methodFor_eq_ok_iff.mp made
      have further : (namesWith (present ++ [result.1])).taken.Nodup := by
        rw [namesWith, List.map_append, List.reverse_append]
        exact List.nodup_cons.mpr ⟨becomes.name.2.2, distinct⟩
      dsimp only
      rw [after, List.reduceOption_cons_of_some, List.append_cons]
      exact inductionHypothesis further
    | error fault =>
      dsimp only
      rw [List.reduceOption_cons_of_none]
      exact inductionHypothesis distinct

/-- Every method was made for an operation. -/
theorem Accounts.exists_becomes {present : List Method} {operations : List Operation}
    {outcomes : List (Option Method)} (accounts : Accounts present operations outcomes)
    {method : Method} (member : method ∈ outcomes.reduceOption) :
    ∃ before, ∃ operation ∈ operations, Becomes before operation method := by
  obtain ⟨index, bound, there⟩ := List.mem_iff_getElem.mp (List.reduceOption_mem_iff.mp member)
  have inside : index < operations.length := accounts.length_eq ▸ bound
  exact ⟨_, operations[index], List.getElem_mem inside,
    (accounts.outcome index _ (List.getElem?_eq_getElem inside) method).mp
      (by rw [List.getElem?_eq_getElem bound, there])⟩

/-! ### Clients -/

end ApiSurface.Client
