/-
This file shows failures of commands: what failed, and below it the causes one after the other, each
the cause of the one before.
-/

import ApiSurface.Decimal.Shortest
import ApiSurface.Docgen.Fault
import ApiSurface.Text.Search

namespace ApiSurface

/-- The text of a fault and those of its causes. -/
def Fault.chain : Fault → List String
  | .file path reason => [(Fault.file path reason).message, reason]
  | .serialization detail =>
    [(Fault.serialization detail).message, "the text does not have the members that it should have"]
  | fault => [fault.message]

/-- The text of a fault of the documentation writer and those of its causes. -/
def DocgenFault.chain : DocgenFault → List String
  | .file path reason => [(DocgenFault.file path reason).message, reason]
  | .configuration fault => fault.chain
  | fault => [fault.message]

namespace Cli

/-- Why a command failed: what failed and the causes, the nearest first. -/
abbrev Failure := List String

/-- A text whose further lines are indented. -/
def hanging (indentation : String) (text : String) : String :=
  String.ofList (Text.replaceAll ['\n'] ('\n' :: indentation.toList) text.toList)

/-- The lines of causes: a single one is indented, several are numbered. -/
def causeLines : List String → List String
  | [only] => ["    " ++ hanging "    " only]
  | causes => causes.zipIdx.map fun (cause, number) =>
    let label := String.ofList (Decimal.natText number)
    String.ofList (List.replicate (5 - label.length) ' ') ++ label ++ ": " ++
      hanging "       " cause

/-- The text that shows a failure. -/
def failureText : Failure → String
  | [] => "Error: "
  | [only] => "Error: " ++ only
  | failed :: causes =>
    "Error: " ++ failed ++ "\n\nCaused by:\n" ++ "\n".intercalate (causeLines causes)

end Cli

end ApiSurface
