/-
This file lists the causes for which reading a document, generating a client or running a command can
fail, and the text of each. Faults of a single operation are told apart from all others: such an
operation is left out and the rest of the document is still used.
-/

namespace ApiSurface

/-- A cause of failure. -/
inductive Fault where
  /-- A file could not be read or written. -/
  | file (path reason : String)
  /-- A text does not follow its format. -/
  | malformed (format detail : String)
  /-- A field that a document must have is absent. -/
  | missingField (field : String)
  /-- A part of a document has the wrong shape. -/
  | invalidSchema (location reason : String)
  /-- An operation depends on a reference that leads nowhere. -/
  | unresolvedReference (operation reference : String)
  /-- No name was free. -/
  | nameCollision (name : String) (attempts : Nat)
  /-- A template could not be used. -/
  | template (detail : String)
  /-- A value could not be written or read back. -/
  | serialization (detail : String)
  /-- The configuration makes no sense. -/
  | configuration (detail : String)
  /-- An argument is not one of those allowed. -/
  | invalidArgument (detail : String)
  deriving DecidableEq, Repr, Inhabited

namespace Fault

/-- The text of a fault. -/
def message : Fault → String
  | .file path reason => s!"I/O error on {path}: {reason}"
  | .malformed format detail => s!"failed to parse {format} document: {detail}"
  | .missingField field => s!"required field '{field}' is missing"
  | .invalidSchema location reason => s!"invalid schema at {location}: {reason}"
  | .unresolvedReference operation reference =>
    s!"unresolved reference '{reference}' in {operation}"
  | .nameCollision name attempts =>
    s!"could not find a free name for '{name}' after {attempts} attempts"
  | .template detail => s!"template error: {detail}"
  | .serialization detail => s!"serialization error: {detail}"
  | .configuration detail => s!"configuration error: {detail}"
  | .invalidArgument detail => s!"invalid argument: {detail}"

/-- Whether a field is missing. -/
def isMissingField : Fault → Bool
  | .missingField _ => true
  | _ => false

/-- Whether a text does not follow its format. -/
def isMalformed : Fault → Bool
  | .malformed _ _ => true
  | _ => false

/-- Whether a reference leads nowhere. -/
def isUnresolvedReference : Fault → Bool
  | .unresolvedReference _ _ => true
  | _ => false

/-- Whether no name was free. -/
def isNameCollision : Fault → Bool
  | .nameCollision _ _ => true
  | _ => false

/-- Whether the configuration is at fault. -/
def isConfiguration : Fault → Bool
  | .configuration _ => true
  | _ => false

/-- Whether the fault concerns one operation only, which is then left out. -/
def isOperationScoped : Fault → Bool
  | .unresolvedReference _ _ | .nameCollision _ _ | .invalidSchema _ _ => true
  | _ => false

end Fault

end ApiSurface
