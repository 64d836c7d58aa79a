/-
This file carries out command lines: it reads them, runs the command on a system and tells how it
ended, with everything that is printed. A command line that breaks the rules ends with a status of its
own before anything is looked at.
-/

import ApiSurface.Cli.Generation
import ApiSurface.Cli.Usage
import ApiSurface.Docgen.Report
import ApiSurface.Schema.Validator
import ApiSurface.Tool.Operation
import ApiSurface.TypeScript.Function

namespace ApiSurface.Cli

open Work

variable {m : Type → Type} [Monad m]

/-! ### Documentation -/

/-- The settings of the writer with the options of a command over them. -/
def docgenSettings (config : DocgenConfig) (model? : Option String) (maxConcurrency? : Option Nat) :
    DocgenConfig :=
  { config with
    model := model?.getD config.model
    maxConcurrency := maxConcurrency?.getD config.maxConcurrency }

/-- Fails if the key to the model is not there. -/
def requireKey (host : Host m) (name : String) : Work m Unit := do
  let key? ← host.setting? name
  if key?.any fun key => !(Text.trim key.toList).isEmpty then return ()
  else throw (DocgenFault.missingKey name).chain

/-- Documents the functions of a file, which is written only if something changed. -/
def documentFile (host : Host m) (path : String) (maxAttempts : Nat) : Work m Docgen.Report :=
  within s!"failed to document {path}" do
    match ← host.read path with
    | .error reason => throw (DocgenFault.file path reason).chain
    | .ok source =>
      let report := (Docgen.run source host.writer maxAttempts).1
      if report.changed then
        match ← host.write path report.source with
        | .error reason => throw (DocgenFault.file path reason).chain
        | .ok _ => return report
      else return report

/-- What is told about a file after its functions were documented. -/
def docgenSummary (path model : String) (report : Docgen.Report) : Json :=
  .object [("file", .text path), ("model", .text model),
    ("documented", Json.ofTexts report.documented),
    ("failed", .array (report.failed.map fun (function, fault) =>
      .object [("function", .text function), ("error", .text fault.message)]))]

/-- Documents the functions of a file; a part is left undone if some of them failed. -/
def docgen (host : Host m) (display : Display) (config? : Option String) (path : String)
    (model? : Option String) (maxConcurrency? : Option Nat) : Work m Done := do
  let config := docgenSettings (← settings host config?).docgen model? maxConcurrency?
  ofExcept config.validate
  requireKey host config.keyVariable
  let report ← documentFile host path config.options.maxAttempts
  return {
    output := display.printed (docgenSummary path config.model report)
    status := if report.failed.isEmpty then 0 else partlyDone }

/-! ### Tools -/

/-- A descriptor in a shape. -/
def ToolShape.form : ToolShape → ToolDescriptor → Json
  | .descriptor => ToolDescriptor.toJson
  | .openai => ToolDescriptor.functionForm
  | .mcp => ToolDescriptor.contextForm
  | .anthropic => ToolDescriptor.inputForm
  | .structured => ToolDescriptor.structuredForm

/-- Lists the operations of a document as tools. -/
def tools (host : Host m) (display : Display) (config? : Option String) (schema : String)
    (shape : ToolShape) : Work m Done := do
  let config ← settings host config?
  let client ← ofExcept (Client.generate (← document host schema) config)
  let forms := (ToolRegistry.ofClient client).descriptors.map shape.form
  return { output := display.printed (.array forms) }

/-! ### Command lines -/

/-- Carries out a command. -/
def carryOut (host : Host m) (invocation : Invocation) : Work m Done := do
  let display : Display := ⟨← ofExcept (OutputFormat.parse invocation.format), ← host.colors⟩
  match invocation.command with
  | .generate options => generate host display invocation.config? options
  | .split source output? => split host display source output?
  | .docgen source model? maxConcurrency? =>
    docgen host display invocation.config? source model? maxConcurrency?
  | .tools schema shape => tools host display invocation.config? schema shape

/-- How a command line ends. -/
structure Outcome where
  /-- The status. -/
  code : Nat
  /-- What is printed as the result. -/
  output : String
  /-- What is printed about failures. -/
  errors : String
  deriving DecidableEq, Repr, Inhabited

namespace Outcome

/-- The status of a command that failed. -/
def failed : Nat := 1

/-- The status of a command line that breaks the rules. -/
def misused : Nat := 2

/-- The end of a command. -/
def ofResult : Except Failure Done → Outcome
  | .ok done => ⟨done.status, done.output, ""⟩
  | .error failure => ⟨failed, "", failureText failure ++ "\n"⟩

end Outcome

/-- Carries out a command line. -/
def run (host : Host m) (arguments : List String) : m Outcome := do
  match readCommandLine (← host.setting? configVariable) arguments with
  | .error _ => return ⟨Outcome.misused, "", usage⟩
  | .ok .version => return ⟨0, versionText, ""⟩
  | .ok .help => return ⟨0, usage, ""⟩
  | .ok (.invoke invocation) => return .ofResult (← (carryOut host invocation).run)

end ApiSurface.Cli
