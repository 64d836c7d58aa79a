/-
This file proves what a name is that an allocator hands out: one that was free, and the name that was
asked for with nothing or with an underscore and further characters of names behind it. The only way
in which an allocator fails is that every name it may try is taken. What is handed out is taken from then
on, so no name is handed out twice, however many calls there are and whichever of them fail.
-/

import ApiSurface.Name.Allocator
import ApiSurface.Proofs.Fault
import ApiSurface.Proofs.Name.Identifier
import Mathlib.Data.List.Induction
import Mathlib.Data.List.Nodup

namespace ApiSurface.Name

/-! ### Extensions -/

/-- A name that is another one, or starts with it and goes on with an underscore somewhere behind it. -/
def Extends (base name : String) : Prop :=
  ∃ tail, name.toList = base.toList ++ tail ∧
    (∀ character ∈ tail, Text.continuesName character = true) ∧ (tail = [] ∨ '_' ∈ tail)

theorem extends_refl (base : String) : Extends base base :=
  ⟨[], (List.append_nil _).symm, fun _ member => absurd member List.not_mem_nil, .inl rfl⟩

theorem extends_append {base tail : String}
    (continued : ∀ character ∈ tail.toList, Text.continuesName character = true)
    (underscore : '_' ∈ tail.toList) : Extends base (base ++ tail) :=
  ⟨tail.toList, String.toList_append, continued, .inr underscore⟩

theorem Extends.trans {base middle name : String} (first : Extends base middle)
    (second : Extends middle name) : Extends base name := by
  obtain ⟨firstTail, firstWhole, firstContinued, firstUnderscore⟩ := first
  obtain ⟨secondTail, secondWhole, secondContinued, secondUnderscore⟩ := second
  refine ⟨firstTail ++ secondTail, ?_, fun character member => ?_, ?_⟩
  · rw [secondWhole, firstWhole, List.append_assoc]
  · exact (List.mem_append.mp member).elim (firstContinued character) (secondContinued character)
  · rcases firstUnderscore with rfl | inside
    · exact secondUnderscore
    · exact .inr (List.mem_append_left _ inside)

/-- An extension of an identifier is an identifier. -/
theorem Extends.isIdentifier {base name : String} (extended : Extends base name)
    (identifier : IsIdentifier base) : IsIdentifier name := by
  obtain ⟨tail, whole, continued, -⟩ := extended
  exact identifier.of_append whole continued

/-- A name without an underscore extends nothing but itself. -/
theorem Extends.eq_of_underscore_notMem {base name : String} (extended : Extends base name)
    (bare : '_' ∉ name.toList) : name = base := by
  obtain ⟨tail, whole, -, rfl | underscore⟩ := extended
  · exact String.toList_inj.mp (whole.trans (List.append_nil _))
  · refine absurd ?_ bare
    rw [whole]
    exact List.mem_append_right _ underscore

/-- A reserved word extends nothing but itself. -/
theorem Extends.eq_of_isReserved {base name : String} (extended : Extends base name)
    (reserved : isReserved name = true) : name = base :=
  extended.eq_of_underscore_notMem (underscore_notMem_of_isReserved reserved)

/-- An extension of the identifier of a text is a reserved word only if it names a receiver. -/
theorem Extends.mem_receivers {text name : String} (extended : Extends (sanitize text) name)
    (reserved : isReserved name = true) : name ∈ receivers := by
  have same := extended.eq_of_isReserved reserved
  rw [same] at reserved ⊢
  exact mem_receivers_of_isReserved_sanitize reserved

theorem extends_suffix (base : String) (location : Location) :
    Extends base (base ++ location.suffix) := by
  cases location <;> exact extends_append (List.all_eq_true.mp (by decide)) (by decide)

theorem continuesName_of_mem_natText {number : Nat} {character : Char}
    (member : character ∈ Decimal.natText number) : Text.continuesName character = true := by
  have digit : Text.isDigit character = true := by
    simpa only [Text.isDigit, Char.isDigit, Char.le_def, ge_iff_le, Bool.decide_and] using
      Nat.isDigit_of_mem_toDigits (by decide) (by decide) member
  rw [Text.continuesName, Text.isAlphanumeric, digit, Bool.or_true, Bool.true_or]

theorem extends_numbered (base : String) (number : Nat) :
    Extends base (Allocator.numbered base number) := by
  refine ⟨'_' :: Decimal.natText number, ?_, fun character member => ?_, .inr List.mem_cons_self⟩
  · have digits : (String.ofList (Decimal.natText number)).toList = Decimal.natText number :=
      String.toList_ofList
    rw [Allocator.numbered, String.toList_append, String.toList_append, digits, List.append_assoc]
    rfl
  · rcases List.mem_cons.mp member with rfl | digit
    · decide
    · exact continuesName_of_mem_natText digit

namespace Allocator

/-! ### Claims -/

theorem isTaken_iff {names : Allocator} {name : String} :
    names.isTaken name = true ↔ name ∈ names.taken :=
  List.contains_iff_mem

theorem firstFree?_eq_some {names : Allocator} {base name : String} {number count : Nat}
    (found : names.firstFree? base number count = some name) :
    name ∉ names.taken ∧ Extends base name := by
  induction count generalizing number with
  | zero => exact absurd found (Option.some_ne_none name).symm
  | succ count inductionHypothesis =>
    unfold firstFree? at found
    split at found
    · exact inductionHypothesis found
    · next free =>
      obtain rfl := Option.some.inj found
      exact ⟨fun taken => free (isTaken_iff.mpr taken), extends_numbered base number⟩

theorem free?_eq_some {names : Allocator} {base name : String} (found : names.free? base = some name) :
    name ∉ names.taken ∧ Extends base name := by
  unfold free? at found
  split at found
  · exact firstFree?_eq_some found
  · next free =>
    obtain rfl := Option.some.inj found
    exact ⟨fun taken => free (isTaken_iff.mpr taken), extends_refl base⟩

/-- A name that was claimed with a number was free, extends the name that was asked for, and is taken
now. -/
theorem claimTiebreak_eq_ok {names after : Allocator} {base name : String}
    (claimed : names.claimTiebreak base = .ok (name, after)) :
    name ∉ names.taken ∧ Extends base name ∧ after = names.take name := by
  unfold claimTiebreak at claimed
  split at claimed
  · next found =>
    obtain ⟨rfl, rfl⟩ := Prod.mk.inj (Except.ok.inj claimed)
    obtain ⟨free, extended⟩ := free?_eq_some found
    exact ⟨free, extended, rfl⟩
  · cases claimed

/-- The name that was asked for is taken afterwards, whichever name was handed out. -/
theorem mem_taken_of_claimTiebreak {names after : Allocator} {base name : String}
    (claimed : names.claimTiebreak base = .ok (name, after)) : base ∈ after.taken := by
  obtain ⟨-, -, rfl⟩ := claimTiebreak_eq_ok claimed
  by_cases taken : names.isTaken base = true
  · exact List.mem_cons_of_mem _ (isTaken_iff.mp taken)
  · simp only [claimTiebreak, free?, if_neg taken, Except.ok.injEq, Prod.mk.injEq] at claimed
    rw [claimed.1]
    exact List.mem_cons_self

/-- A claim with numbers fails only because no name is free. -/
theorem claimTiebreak_eq_error {names : Allocator} {base : String} {fault : Fault}
    (failed : names.claimTiebreak base = .error fault) : fault.isNameCollision = true := by
  unfold claimTiebreak at failed
  split at failed
  · cases failed
  · obtain rfl := Except.error.inj failed
    rfl

/-- A claimed name was free, extends the name that was asked for, and is taken now. -/
theorem claim_eq_ok {names after : Allocator} {base name : String} {location : Location}
    (claimed : names.claim base location = .ok (name, after)) :
    name ∉ names.taken ∧ Extends base name ∧ after.taken = name :: names.taken := by
  unfold claim at claimed
  split at claimed
  · obtain ⟨free, extended, rfl⟩ := claimTiebreak_eq_ok claimed
    exact ⟨free, (extends_suffix base location).trans extended, rfl⟩
  · next free =>
    obtain ⟨rfl, rfl⟩ := Prod.mk.inj (Except.ok.inj claimed)
    exact ⟨fun taken => free (isTaken_iff.mpr taken), extends_refl base, rfl⟩

/-- The name that was asked for is taken afterwards, whichever name was handed out. -/
theorem mem_taken_of_claim {names after : Allocator} {base name : String} {location : Location}
    (claimed : names.claim base location = .ok (name, after)) : base ∈ after.taken := by
  unfold claim at claimed
  split at claimed
  · next taken =>
    obtain ⟨-, -, rfl⟩ := claimTiebreak_eq_ok claimed
    exact List.mem_cons_of_mem _ (isTaken_iff.mp taken)
  · obtain ⟨rfl, rfl⟩ := Prod.mk.inj (Except.ok.inj claimed)
    exact List.mem_cons_self

/-- A claim fails only because no name is free. -/
theorem claim_eq_error {names : Allocator} {base : String} {location : Location} {fault : Fault}
    (failed : names.claim base location = .error fault) : fault.isNameCollision = true := by
  unfold claim at failed
  split at failed
  · exact claimTiebreak_eq_error failed
  · cases failed

/-! ### Names that are tried -/

/-- The names that are tried for a base, in their order: the base itself, and the base extended by the
numbers from 2 to the bound. -/
def candidates (base : String) : List String :=
  base :: (List.range' 2 (maxTiebreak - 1)).map (numbered base)

theorem firstFree?_eq_find? (names : Allocator) (base : String) (number count : Nat) :
    names.firstFree? base number count =
      ((List.range' number count).map (numbered base)).find? fun name => !names.isTaken name := by
  induction count generalizing number with
  | zero => rfl
  | succ count inductionHypothesis =>
    rw [firstFree?, List.range'_succ, List.map_cons, List.find?_cons, inductionHypothesis]
    cases names.isTaken (numbered base number) <;> rfl

/-- The name for a base is the first free one of those that are tried. -/
theorem free?_eq_find? (names : Allocator) (base : String) :
    names.free? base = (candidates base).find? fun name => !names.isTaken name := by
  rw [free?, firstFree?_eq_find?, candidates, List.find?_cons]
  cases names.isTaken base <;> rfl

/-! ### Calls -/

/-- A call that asks for a name. -/
inductive Call where
  /-- For a parameter in a place. -/
  | claim (base : String) (location : Location)
  /-- For anything else. -/
  | claimTiebreak (base : String)
  deriving DecidableEq, Repr

/-- What a call claims in an allocator: a name, and the allocator in which it is taken. -/
def Call.claimed (names : Allocator) : Call → Except Fault (String × Allocator)
  | .claim base location => names.claim base location
  | .claimTiebreak base => names.claimTiebreak base

/-- What a call answers, one among others. -/
def Call.answer (call : Call) : StateM Allocator (Except Fault String) :=
  inPlace fun names => call.claimed names

/-- A call that succeeds takes a name that was free. -/
theorem Call.claimed_eq_ok {call : Call} {names after : Allocator} {name : String}
    (done : call.claimed names = .ok (name, after)) :
    name ∉ names.taken ∧ after = names.take name := by
  cases call with
  | claim base location =>
    obtain ⟨free, -, taken⟩ := claim_eq_ok done
    exact ⟨free, congrArg Allocator.mk taken⟩
  | claimTiebreak base =>
    obtain ⟨free, -, taken⟩ := claimTiebreak_eq_ok done
    exact ⟨free, taken⟩

/-- A call takes the name that it answers, which was free, or answers a fault and changes nothing. -/
theorem Call.run_answer (call : Call) (names : Allocator) :
    (∃ name, name ∉ names.taken ∧ call.answer.run names = (.ok name, names.take name)) ∨
      ∃ fault, call.answer.run names = (.error fault, names) := by
  rw [answer, run_inPlace]
  cases claimed : call.claimed names with
  | error fault => exact .inr ⟨fault, rfl⟩
  | ok given =>
    obtain ⟨free, taken⟩ := claimed_eq_ok claimed
    exact .inl ⟨given.1, free, congrArg (Prod.mk _) taken⟩

theorem isTaken_take (names : Allocator) (name other : String) :
    (names.take name).isTaken other = true ↔ other = name ∨ names.isTaken other = true := by
  rw [isTaken_iff, isTaken_iff, take, List.mem_cons]

theorem fst_run_claimTiebreak (names : Allocator) (base : String) :
    ((Call.claimTiebreak base).answer.run names).1 =
      match (candidates base).find? fun name => !names.isTaken name with
      | some name => .ok name
      | none => .error (.nameCollision base maxTiebreak) := by
  rw [Call.answer, run_inPlace, Call.claimed, claimTiebreak, free?_eq_find?]
  cases (candidates base).find? fun name => !names.isTaken name <;> rfl

/-- How an allocator answers calls. -/
structure Answers (names : Allocator) : Prop where
  /-- A call that succeeds takes the name that it answers and no other. -/
  success : ∀ (call : Call) name after, call.answer.run names = (.ok name, after) →
    ∀ other, after.isTaken other = true ↔ other = name ∨ names.isTaken other = true
  /-- A call that fails changes nothing. -/
  failure : ∀ (call : Call) fault after, call.answer.run names = (.error fault, after) →
    after = names
  /-- Of the names that are tried for a base, the first free one is answered. -/
  first : ∀ base, ((Call.claimTiebreak base).answer.run names).1 =
    match (candidates base).find? fun name => !names.isTaken name with
    | some name => .ok name
    | none => .error (.nameCollision base maxTiebreak)
  /-- There is a fault exactly if all of them are taken. -/
  exhausted : ∀ base, (∃ fault, ((Call.claimTiebreak base).answer.run names).1 = .error fault) ↔
    ∀ name ∈ candidates base, names.isTaken name = true
  /-- A parameter gets a base that is free as it is. -/
  free : ∀ base location, names.isTaken base = false →
    ((Call.claim base location).answer.run names).1 = .ok base
  /-- Where the base is taken, names are tried for the base extended by the place. -/
  taken : ∀ base location, names.isTaken base = true →
    (Call.claim base location).answer.run names =
      (Call.claimTiebreak (base ++ location.suffix)).answer.run names

theorem answers (names : Allocator) : names.Answers where
  success call name after done other := by
    rcases call.run_answer names with ⟨taken, -, run⟩ | ⟨fault, run⟩ <;> rw [run] at done
    · obtain ⟨same, rfl⟩ := Prod.mk.inj done
      obtain rfl := Except.ok.inj same
      exact isTaken_take names taken other
    · cases (Prod.mk.inj done).1
  failure call fault after done := by
    rcases call.run_answer names with ⟨taken, -, run⟩ | ⟨other, run⟩ <;> rw [run] at done
    · cases (Prod.mk.inj done).1
    · exact (Prod.mk.inj done).2.symm
  first := fst_run_claimTiebreak names
  exhausted base := by
    rw [fst_run_claimTiebreak]
    cases found : (candidates base).find? fun name => !names.isTaken name with
    | none =>
      rw [List.find?_eq_none] at found
      exact iff_of_true ⟨_, rfl⟩ fun name member => by simpa using found name member
    | some name =>
      refine iff_of_false (fun ⟨_, failed⟩ => by cases failed) fun all => ?_
      have free := List.find?_some found
      rw [all name (List.mem_of_find?_eq_some found)] at free
      cases free
  free base location untaken := by
    rw [Call.answer, run_inPlace, Call.claimed, claim, untaken]
    rfl
  taken base location known := by
    rw [Call.answer, Call.answer, run_inPlace, run_inPlace, Call.claimed, Call.claimed, claim,
      if_pos known]

/-! ### Calls one after the other -/

/-- The names that answers hand out. -/
def handedOut (answers : List (Except Fault String)) : List String :=
  answers.filterMap Except.toOption

/-- What calls come to, one after the other, when some names are reserved at first: their answers, and
the allocator that they leave. -/
structure HandsOut (reserved : List String) (calls : List Call)
    (answers : List (Except Fault String)) (names : Allocator) : Prop where
  /-- Every call is answered. -/
  answered : answers.length = calls.length
  /-- The names that are handed out are pairwise different. -/
  distinct : (handedOut answers).Nodup
  /-- None of them is reserved. -/
  unreserved : ∀ name ∈ handedOut answers, name ∉ reserved
  /-- What is taken is reserved or was handed out. -/
  taken : ∀ name, names.isTaken name = true ↔ name ∈ reserved ∨ name ∈ handedOut answers
  /-- Further calls are answered like any others. -/
  next : names.Answers

/-- What was handed out is taken, on top of what is reserved. -/
theorem exists_taken_eq (reserved : List String) (calls : List Call) :
    ∃ answers names, (calls.mapM Call.answer).run ⟨reserved⟩ = (answers, names) ∧
      answers.length = calls.length ∧ names.taken = (handedOut answers).reverse ++ reserved ∧
      (handedOut answers).Nodup ∧ ∀ name ∈ handedOut answers, name ∉ reserved := by
  induction calls using List.reverseRecOn with
  | nil =>
    exact ⟨[], ⟨reserved⟩, rfl, rfl, rfl, List.nodup_nil, fun _ inside => absurd inside List.not_mem_nil⟩
  | append_singleton calls last inductionHypothesis =>
    obtain ⟨answers, names, earlier, answered, taken, distinct, unreserved⟩ := inductionHypothesis
    refine ⟨_, _, run_mapM_concat Call.answer calls last _, by simp [earlier, answered], ?_⟩
    rw [earlier]
    rcases last.run_answer names with ⟨name, free, run⟩ | ⟨fault, run⟩ <;> rw [run]
    · rw [taken, List.mem_append, List.mem_reverse, not_or] at free
      have more : handedOut (answers ++ [.ok name]) = handedOut answers ++ [name] :=
        List.filterMap_append
      rw [more]
      refine ⟨?_, ?_, ?_⟩
      · rw [take, taken, List.reverse_append]
        rfl
      · refine distinct.append (List.nodup_singleton name) ?_
        rw [List.disjoint_singleton]
        exact free.1
      · rw [List.forall_mem_append]
        exact ⟨unreserved, List.forall_mem_singleton.mpr free.2⟩
    · have same : handedOut (answers ++ [.error fault]) = handedOut answers :=
        List.filterMap_append.trans (List.append_nil _)
      rw [same]
      exact ⟨taken, distinct, unreserved⟩

/-- Whatever is reserved and whatever is asked for, no name is handed out twice and none that is
reserved. -/
theorem exists_handsOut (reserved : List String) (calls : List Call) :
    ∃ answers names, (calls.mapM Call.answer).run ⟨reserved⟩ = (answers, names) ∧
      HandsOut reserved calls answers names := by
  obtain ⟨answers, names, run, answered, taken, distinct, unreserved⟩ :=
    exists_taken_eq reserved calls
  refine ⟨answers, names, run, answered, distinct, unreserved, fun name => ?_, names.answers⟩
  rw [isTaken_iff, taken, List.mem_append, List.mem_reverse, or_comm]

example : handedOut ((([.claim "id" .path, .claim "id" .query, .claim "id" .query,
    .claim "this" .path, .claimTiebreak "id_query"] : List Call).mapM Call.answer).run
      forParameters).1 = ["id", "id_query", "id_query_2", "this_path", "id_query_3"] := by decide

end Allocator

end ApiSurface.Name
