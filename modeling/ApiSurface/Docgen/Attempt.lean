/-
This file asks a writer for the documentation of one function until it answers. Every failure that may
be gone the next time is worth another attempt, up to a given number; any other ends the matter.
-/

import ApiSurface.Docgen.Fault

namespace ApiSurface.Docgen

/-- What a writer answers when it is asked once. -/
abbrev Outcome := Except DocgenFault String

/-- Where a model is asked for documentation. -/
def modelAddress : String := "https://api.anthropic.com/v1/messages"

/-- What a writer answers that cannot reach its model. -/
def unreachable : Outcome :=
  .error (.transport s!"error sending request for url ({modelAddress})")

/-- How the attempts for one function ended. -/
structure Attempted where
  /-- The documentation, or why there is none. -/
  result : Outcome
  /-- How often the writer was asked. -/
  calls : Nat
  deriving Inhabited

/-- Asks a writer, whose answers come in the order of `outcomes`, after `made` attempts were made. -/
def attemptFrom (function : String) (outcomes : Nat → Outcome) (maxAttempts made : Nat) : Attempted :=
  match outcomes made with
  | .ok text => ⟨.ok text, made + 1⟩
  | .error fault =>
    if fault.isRetryable ∧ made + 1 < maxAttempts then
      attemptFrom function outcomes maxAttempts (made + 1)
    else if fault.isRetryable then
      ⟨.error (.exhausted function (made + 1) fault.message), made + 1⟩
    else ⟨.error fault, made + 1⟩
  termination_by maxAttempts - made

/-- Asks a writer for the documentation of a function. It is asked at least once. -/
def attempt (function : String) (outcomes : Nat → Outcome) (maxAttempts : Nat) : Attempted :=
  attemptFrom function outcomes maxAttempts 0

end ApiSurface.Docgen
