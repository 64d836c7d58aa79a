/-
This file proves how often a writer is asked for the documentation of a function and what comes of it. An
outcome settles the matter if it is documentation or a failure that another attempt does not cure. The
attempts go on over the outcomes that settle nothing, as long as the number of attempts allows it; at
least one attempt is made. So only two outcomes matter: the first one that settles the matter, if it comes
early enough, and otherwise the last one that is asked for.
-/

import ApiSurface.Docgen.Attempt
import Mathlib.Order.MinMax

namespace ApiSurface.Docgen

/-- Whether no other attempt is made after an outcome, however many are allowed. -/
def isSettled : Outcome → Bool
  | .ok _ => true
  | .error fault => !fault.isRetryable

/-- An outcome with a number, counted from zero, is the first one that settles the matter. -/
def IsFirstSettled (outcomes : Nat → Outcome) (number : Nat) : Prop :=
  isSettled (outcomes number) = true ∧ ∀ earlier < number, isSettled (outcomes earlier) = false

/-- Among the first outcomes there is one that settles the matter before the others, or none does. -/
theorem exists_isFirstSettled_or (outcomes : Nat → Outcome) (bound : Nat) :
    (∃ number < bound, IsFirstSettled outcomes number) ∨
      ∀ number < bound, isSettled (outcomes number) = false := by
  induction bound with
  | zero => exact .inr fun _ less => absurd less (Nat.not_lt_zero _)
  | succ bound inductionHypothesis =>
    rcases inductionHypothesis with ⟨number, less, first⟩ | none
    · exact .inl ⟨number, Nat.lt_succ_of_lt less, first⟩
    · cases settled : isSettled (outcomes bound) with
      | true => exact .inl ⟨bound, Nat.lt_succ_self bound, settled, none⟩
      | false =>
        refine .inr fun number less => ?_
        rcases Nat.lt_succ_iff_lt_or_eq.mp less with earlier | rfl
        · exact none number earlier
        · exact settled

section

variable {function : String} {outcomes : Nat → Outcome} {maxAttempts made : Nat}

/-! ### One attempt -/

theorem attemptFrom_of_settled (settled : isSettled (outcomes made) = true) :
    attemptFrom function outcomes maxAttempts made = ⟨outcomes made, made + 1⟩ := by
  rw [attemptFrom]
  cases outcome : outcomes made with
  | ok text => rfl
  | error fault =>
    have final : fault.isRetryable = false := by simpa [isSettled, outcome] using settled
    simp [final]

theorem exists_fault_of_unsettled (unsettled : isSettled (outcomes made) = false) :
    ∃ fault, outcomes made = .error fault ∧ fault.isRetryable = true := by
  cases outcome : outcomes made with
  | ok text => simp [isSettled, outcome] at unsettled
  | error fault => exact ⟨fault, rfl, by simpa [isSettled, outcome] using unsettled⟩

theorem attemptFrom_of_unsettled (unsettled : isSettled (outcomes made) = false)
    (allowed : made + 1 < maxAttempts) :
    attemptFrom function outcomes maxAttempts made =
      attemptFrom function outcomes maxAttempts (made + 1) := by
  obtain ⟨fault, outcome, retryable⟩ := exists_fault_of_unsettled unsettled
  rw [attemptFrom]
  simp [outcome, retryable, allowed]

theorem attemptFrom_of_last {fault : DocgenFault} (outcome : outcomes made = .error fault)
    (retryable : fault.isRetryable = true) (last : maxAttempts ≤ made + 1) :
    attemptFrom function outcomes maxAttempts made =
      ⟨.error (.exhausted function (made + 1) fault.message), made + 1⟩ := by
  rw [attemptFrom]
  simp [outcome, retryable, Nat.not_lt.mpr last]

/-! ### All attempts -/

/-- The attempts go on over outcomes that settle nothing. -/
theorem attempt_eq_attemptFrom {reached : Nat} (allowed : reached ≤ maxAttempts - 1)
    (unsettled : ∀ number < reached, isSettled (outcomes number) = false) :
    attempt function outcomes maxAttempts = attemptFrom function outcomes maxAttempts reached := by
  induction reached with
  | zero => rfl
  | succ reached inductionHypothesis =>
    rw [inductionHypothesis (Nat.le_of_succ_le allowed) fun number less =>
        unsettled number (Nat.lt_succ_of_lt less),
      attemptFrom_of_unsettled (unsettled reached (Nat.lt_succ_self reached)) (by omega)]

theorem attempt_of_isFirstSettled {number : Nat} (first : IsFirstSettled outcomes number)
    (early : number < max 1 maxAttempts) :
    attempt function outcomes maxAttempts = ⟨outcomes number, number + 1⟩ := by
  rw [attempt_eq_attemptFrom (by omega) first.2, attemptFrom_of_settled first.1]

theorem attempt_of_unsettled (function : String)
    (unsettled : ∀ number < max 1 maxAttempts, isSettled (outcomes number) = false) :
    ∃ fault, outcomes (max 1 maxAttempts - 1) = .error fault ∧
      attempt function outcomes maxAttempts =
        ⟨.error (.exhausted function (max 1 maxAttempts) fault.message), max 1 maxAttempts⟩ := by
  have last : max 1 maxAttempts - 1 = maxAttempts - 1 := by omega
  have count : maxAttempts - 1 + 1 = max 1 maxAttempts := by omega
  obtain ⟨fault, outcome, retryable⟩ :=
    exists_fault_of_unsettled (unsettled (maxAttempts - 1) (by omega))
  refine ⟨fault, last ▸ outcome, ?_⟩
  rw [attempt_eq_attemptFrom (Nat.le_refl _) fun number less => unsettled number (by omega),
    attemptFrom_of_last outcome retryable (by omega), count]

/-- Outcomes after the last attempt are not looked at. -/
theorem attempt_congr {others : Nat → Outcome}
    (same : ∀ number < (attempt function outcomes maxAttempts).calls, others number = outcomes number) :
    attempt function others maxAttempts = attempt function outcomes maxAttempts := by
  rcases exists_isFirstSettled_or outcomes (max 1 maxAttempts) with ⟨number, early, first⟩ | unsettled
  · rw [attempt_of_isFirstSettled first early] at same ⊢
    have firstOther : IsFirstSettled others number := by
      refine ⟨?_, fun earlier less => ?_⟩
      · rw [same number (Nat.lt_succ_self number)]
        exact first.1
      · rw [same earlier (Nat.lt_succ_of_lt less)]
        exact first.2 earlier less
    rw [attempt_of_isFirstSettled firstOther early, same number (Nat.lt_succ_self number)]
  · obtain ⟨fault, outcome, exhausted⟩ := attempt_of_unsettled function unsettled
    rw [exhausted] at same ⊢
    replace same : ∀ number < max 1 maxAttempts, others number = outcomes number := same
    have unsettledOthers : ∀ number < max 1 maxAttempts, isSettled (others number) = false :=
      fun number less => (congrArg isSettled (same number less)).trans (unsettled number less)
    obtain ⟨other, otherOutcome, otherExhausted⟩ := attempt_of_unsettled function unsettledOthers
    rw [same _ (by omega), outcome] at otherOutcome
    rw [otherExhausted, Except.error.inj otherOutcome]

end

/-- A writer is asked until an outcome settles the matter, but not more often than is allowed, and once
at least. That outcome is the result if it comes in time; otherwise the result tells how many attempts
failed and why the last one did. No outcome after the last attempt matters. -/
theorem attempt_stops (function : String) (outcomes : Nat → Outcome) (maxAttempts : Nat) :
    (∀ number, IsFirstSettled outcomes number →
      (attempt function outcomes maxAttempts).calls = min (max 1 maxAttempts) (number + 1) ∧
        (number < max 1 maxAttempts →
          (attempt function outcomes maxAttempts).result = outcomes number)) ∧
    ((∀ number < max 1 maxAttempts, isSettled (outcomes number) = false) →
      (attempt function outcomes maxAttempts).calls = max 1 maxAttempts ∧
        ∃ fault, outcomes (max 1 maxAttempts - 1) = .error fault ∧
          (attempt function outcomes maxAttempts).result =
            .error (.exhausted function (max 1 maxAttempts) fault.message)) ∧
    ∀ others : Nat → Outcome,
      (∀ number < (attempt function outcomes maxAttempts).calls, others number = outcomes number) →
        attempt function others maxAttempts = attempt function outcomes maxAttempts := by
  refine ⟨fun number first => ?_, fun unsettled => ?_, fun others => attempt_congr⟩
  · by_cases early : number < max 1 maxAttempts
    · rw [attempt_of_isFirstSettled first early]
      exact ⟨(min_eq_right early).symm, fun _ => rfl⟩
    · have unsettled : ∀ earlier < max 1 maxAttempts, isSettled (outcomes earlier) = false :=
        fun earlier less => first.2 earlier (by omega)
      obtain ⟨fault, -, exhausted⟩ := attempt_of_unsettled function unsettled
      rw [exhausted]
      exact ⟨by simp; omega, fun less => absurd less early⟩
  · obtain ⟨fault, outcome, exhausted⟩ := attempt_of_unsettled function unsettled
    rw [exhausted]
    exact ⟨rfl, fault, outcome, rfl⟩

/-- A writer that is overloaded once and then answers. -/
def overloadedOnce (number : Nat) : Outcome :=
  if number = 0 then .error (.api 529 "overloaded") else .ok "Starts."

theorem attempt_stops_overloadedOnce :
    IsFirstSettled overloadedOnce 1 ∧
      (attempt "start" overloadedOnce 3).calls = 2 ∧
      (attempt "start" overloadedOnce 3).result = .ok "Starts." ∧
      (∀ number < max 1 0, isSettled (overloadedOnce number) = false) ∧
      (attempt "start" overloadedOnce 0).calls = 1 ∧
      ∃ fault, overloadedOnce 0 = .error fault ∧
        (attempt "start" overloadedOnce 0).result = .error (.exhausted "start" 1 fault.message) := by
  have first : IsFirstSettled overloadedOnce 1 := by
    refine ⟨rfl, fun earlier less => ?_⟩
    obtain rfl : earlier = 0 := Nat.lt_one_iff.mp less
    rfl
  have unsettled : ∀ number < max 1 0, isSettled (overloadedOnce number) = false :=
    fun number less => first.2 number (by simpa using less)
  obtain ⟨calls, result⟩ := (attempt_stops "start" overloadedOnce 3).1 1 first
  exact ⟨first, calls, result (by decide), unsettled,
    (attempt_stops "start" overloadedOnce 0).2.1 unsettled⟩

end ApiSurface.Docgen
