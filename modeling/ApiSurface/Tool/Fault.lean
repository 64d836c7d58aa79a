/-
This file lists the causes for which a tool cannot be made or a call to one fails, the text of each and
the form in which a caller that is a program receives it.
-/

import ApiSurface.Http.Request

namespace ApiSurface

/-- A cause for which a tool cannot be made or a call fails. -/
inductive ToolFault where
  /-- There is no tool of the name. -/
  | notFound (name : String)
  /-- The tool makes no sense. -/
  | configuration (tool reason : String)
  /-- The arguments do not follow the schema of the tool. -/
  | invalidArguments (tool : String) (errors : List String)
  /-- The request of the tool failed. -/
  | request (fault : RequestFault)
  /-- The tool itself failed. -/
  | failed (detail : String)
  deriving DecidableEq, Repr, Inhabited

namespace ToolFault

/-- The text of a fault. -/
def message : ToolFault → String
  | .notFound name => s!"tool not found: {name}"
  | .configuration tool reason => s!"invalid tool '{tool}': {reason}"
  | .invalidArguments tool errors => s!"invalid arguments for '{tool}': " ++ "; ".intercalate errors
  | .request fault => fault.message
  | .failed detail => s!"tool failed: {detail}"

/-- The word for a fault. -/
def kind : ToolFault → String
  | .notFound _ => "not_found"
  | .configuration _ _ => "configuration"
  | .invalidArguments _ _ => "invalid_arguments"
  | .request fault => fault.kind
  | .failed _ => "failed"

/-- Whether there is no tool of the name. -/
def isNotFound : ToolFault → Bool
  | .notFound _ => true
  | _ => false

/-- Whether the tool makes no sense. -/
def isConfiguration : ToolFault → Bool
  | .configuration _ _ => true
  | _ => false

/-- Whether the arguments do not follow the schema. -/
def isInvalidArguments : ToolFault → Bool
  | .invalidArguments _ _ => true
  | _ => false

/-- What a fault tells besides its kind and its text. -/
def details : ToolFault → Json.Members
  | .invalidArguments tool errors => [("tool", .text tool), ("errors", Json.ofTexts errors)]
  | .configuration tool _ => [("tool", .text tool)]
  | .request (.missingParameter name) => [("parameter", .text name)]
  | .request (.status code body) => [("status", Json.ofNat code), ("body", .text body)]
  | _ => []

/-- The fault as a value. -/
def structured (fault : ToolFault) : Json :=
  .object [("error", .object
    ([("kind", .text fault.kind), ("message", .text fault.message)] ++ fault.details))]

end ToolFault

end ApiSurface
