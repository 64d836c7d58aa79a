/-
This file takes apart steps that may fail. When two steps in order succeed, each of them did; when they
fail, the fault is that of the step that failed. Steps that change a state go on, whatever became of the
step before them, with the state that it left; a step that fails leaves the one from before.
-/

import ApiSurface.Fault

namespace ApiSurface

variable {Cause First Second : Type} {step : Except Cause First} {next : First → Except Cause Second}

/-- Two steps in order succeed exactly when both of them do. -/
theorem bind_eq_ok {result : Second} :
    (step >>= next) = .ok result ↔ ∃ value, step = .ok value ∧ next value = .ok result := by
  cases step with
  | error fault =>
    constructor
    · intro failed
      cases failed
    · rintro ⟨_, failed, -⟩
      cases failed
  | ok value =>
    refine ⟨fun done => ⟨value, rfl, done⟩, fun ⟨other, same, done⟩ => ?_⟩
    obtain rfl := Except.ok.inj same
    exact done

/-- Two steps in order fail exactly when one of them does. -/
theorem bind_eq_error {fault : Cause} :
    (step >>= next) = .error fault ↔
      step = .error fault ∨ ∃ value, step = .ok value ∧ next value = .error fault := by
  cases step with
  | error other =>
    refine ⟨fun failed => .inl (congrArg Except.error (Except.error.inj failed)), fun either => ?_⟩
    rcases either with failed | ⟨value, done, -⟩
    · exact congrArg Except.error (Except.error.inj failed)
    · cases done
  | ok value =>
    refine ⟨fun failed => .inr ⟨value, rfl, failed⟩, fun either => ?_⟩
    rcases either with failed | ⟨other, same, failed⟩
    · cases failed
    · obtain rfl := Except.ok.inj same
      exact failed

theorem toOption_eq_some_iff {value : First} : step.toOption = some value ↔ step = .ok value := by
  cases step with
  | error fault => exact iff_of_false nofun nofun
  | ok other => exact ⟨fun done => congrArg Except.ok (Option.some.inj done), fun | rfl => rfl⟩

theorem eq_ok_of_toOption {value : First} (done : step.toOption = some value) : step = .ok value :=
  toOption_eq_some_iff.mp done

/-- Carries out an operation on a state: what it answers, and the state that is left. An operation that
fails leaves the state from before. -/
def inPlace {State Answer : Type} (operation : State → Except Cause (Answer × State)) :
    StateM State (Except Cause Answer) := fun state =>
  match operation state with
  | .ok (answer, after) => (.ok answer, after)
  | .error fault => (.error fault, state)

theorem run_inPlace {State Answer : Type} (operation : State → Except Cause (Answer × State))
    (state : State) :
    (inPlace operation).run state =
      match operation state with
      | .ok (answer, after) => (.ok answer, after)
      | .error fault => (.error fault, state) := rfl

/-- The last of several steps that change a state starts from what those before it left. -/
theorem run_mapM_concat {State Call Answer : Type} (step : Call → StateM State Answer)
    (calls : List Call) (last : Call) (state : State) :
    ((calls ++ [last]).mapM step).run state =
      (((calls.mapM step).run state).1 ++ [((step last).run ((calls.mapM step).run state).2).1],
        ((step last).run ((calls.mapM step).run state).2).2) := by
  rw [List.mapM_append, List.mapM_cons, List.mapM_nil]
  rfl

/-- Where no name is free, only one operation is concerned. -/
theorem Fault.isOperationScoped_of_isNameCollision {fault : Fault}
    (collision : fault.isNameCollision = true) : fault.isOperationScoped = true := by
  cases fault with
  | nameCollision name attempts => rfl
  | _ => cases collision

end ApiSurface
