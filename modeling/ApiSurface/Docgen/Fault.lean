/-
This file lists the causes for which documenting a function can fail, and the text of each. Some of them
may be gone when the writer is asked again: those are worth another attempt.
-/

import ApiSurface.Fault

namespace ApiSurface

/-- A cause for which a function is not documented. -/
inductive DocgenFault where
  /-- The file could not be read or written. -/
  | file (path reason : String)
  /-- The source could not be read. -/
  | malformed (detail : String)
  /-- The variable of the environment that holds the key to the model is not set. -/
  | missingKey (name : String)
  /-- The model could not be reached. -/
  | transport (detail : String)
  /-- The model answered with an error. -/
  | api (status : Nat) (detail : String)
  /-- The model answered with nothing that documents the function. -/
  | empty (function : String)
  /-- No attempt succeeded. -/
  | exhausted (function : String) (attempts : Nat) (last : String)
  /-- The settings make no sense. -/
  | configuration (fault : Fault)
  deriving DecidableEq, Repr, Inhabited

namespace DocgenFault

/-- The text of a fault. -/
def message : DocgenFault → String
  | .file path reason => s!"I/O error on {path}: {reason}"
  | .malformed detail => s!"failed to parse TypeScript source: {detail}"
  | .missingKey name => s!"environment variable {name} is not set"
  | .transport detail => s!"model request failed: {detail}"
  | .api status detail => s!"model API returned {status}: {detail}"
  | .empty function => s!"model returned no documentation for '{function}'"
  | .exhausted function attempts last =>
    s!"giving up on '{function}' after {attempts} attempts: {last}"
  | .configuration fault => fault.message

/-- Whether another attempt may succeed. -/
def isRetryable : DocgenFault → Bool
  | .transport _ | .empty _ => true
  | .api status _ => status == 429 || 500 ≤ status
  | _ => false

end DocgenFault

end ApiSurface
