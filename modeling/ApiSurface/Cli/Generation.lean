/-
This file generates clients and splits generated ones on behalf of commands. Files go where the output
is wanted, under the name that the file of the client has.
-/

import ApiSurface.Cli.Invocation
import ApiSurface.Cli.Work
import ApiSurface.Client.Generate
import ApiSurface.Client.Reader

namespace ApiSurface.Cli

open Work

variable {m : Type → Type} [Monad m]

/-- The paths of files as a value. -/
def pathsOf (files : List GeneratedFile) : Json :=
  Json.ofTexts (files.map GeneratedFile.path)

/-! ### Clients -/

/-- The settings with the options of a command over them. -/
def GenerateOptions.over (options : GenerateOptions) (config : Config) : Config :=
  { config with
    className := options.className?.orElse fun _ => config.className
    baseUrl := options.baseUrl?.orElse fun _ => config.baseUrl
    split := config.split || options.split
    emitIr := config.emitIr && !options.noIr }

/-- What is told about a client after it was written. -/
def generationSummary (client : Client) (split : Bool) (directory : String)
    (files : List GeneratedFile) : Json :=
  .object [("class_name", .text client.className), ("methods", Json.ofNat client.methods.length),
    ("split", .bool split), ("output_dir", .text directory), ("files", pathsOf files)]

/-- Generates a client and writes it, or prints it where no file is named for it. -/
def generate (host : Host m) (display : Display) (config? : Option String)
    (options : GenerateOptions) : Work m Done := do
  let config := options.over (← settings host config?)
  let client ← ofExcept (Client.generate (← document host options.schema) config)
  match options.output? with
  | none => return { output := ← ofExcept client.render }
  | some output =>
    let stem ← stemOf output
    let directory := directoryOf output
    let files ← ofExcept (client.files stem config.split config.emitIr)
    within s!"failed to write client to {directory}" (writeFiles host directory files)
    return { output := display.printed (generationSummary client config.split directory files) }

/-! ### Segments -/

/-- What is told about a segment. -/
def segmentSummary (segment : Segment) : Json :=
  .object [("group_key", .text segment.key), ("class_name", .text segment.className),
    ("methods", Json.ofNat segment.methods.length)]

/-- What is told about a client after it was split. -/
def splitSummary (client : Client) (parts : Partition) (directory : String)
    (files : List GeneratedFile) : Json :=
  .object [("class_name", .text client.className),
    ("segments", .array (parts.segments.map segmentSummary)),
    ("root_methods", Json.ofTexts (parts.root.map Method.name)),
    ("output_dir", .text directory), ("files", pathsOf files)]

/-- Loads the client that is stored beside a file. -/
def storedClient (host : Host m) (source : String) : Work m Client :=
  let path := Client.storedPath source
  within s!"no client IR for {source} (expected {path}); regenerate the client first" do
    ofExcept (Client.parseStored path (← readFile host path))

/-- Splits a generated client into segments. -/
def split (host : Host m) (display : Display) (source : String) (output? : Option String) :
    Work m Done := do
  let client ← storedClient host source
  let stem ← stemOf source
  let directory := output?.getD (directoryOf source)
  let files ← ofExcept (client.files stem true true)
  within s!"failed to write segments to {directory}" (writeFiles host directory files)
  let parts ← ofExcept client.partition
  return { output := display.printed (splitSummary client parts directory files) }

end ApiSurface.Cli
