/-
This file holds what commands have in common: they end with what they print and a status, or fail; they
look up settings, load documents, write files, and say what they were doing when something failed.
-/

import ApiSurface.Cli.Failure
import ApiSurface.Cli.Host
import ApiSurface.Client.Files
import ApiSurface.Config
import ApiSurface.OpenApi.Document
import ApiSurface.Output

namespace ApiSurface.Cli

/-- A piece of work on a system that may fail. -/
abbrev Work (m : Type → Type) := ExceptT Failure m

/-- How a command ends that does not fail. -/
structure Done where
  /-- What it prints. -/
  output : String
  /-- The status: zero, or another one if a part is left undone. -/
  status : Nat := 0
  deriving DecidableEq, Repr, Inhabited

/-- The status of a command that left a part undone. -/
def partlyDone : Nat := 3

/-- How values are shown. -/
structure Display where
  /-- The format. -/
  format : OutputFormat
  /-- Whether there are colors. -/
  colors : Bool
  deriving DecidableEq, Repr, Inhabited

/-- A value as a command prints it. -/
def Display.printed (display : Display) (value : Json) : String :=
  Output.write value display.format display.colors ++ "\n"

namespace Work

variable {m : Type → Type} [Monad m]

/-- Fails with a fault. -/
def fail {α : Type} (fault : Fault) : Work m α :=
  throw fault.chain

/-- The result of a calculation, whose fault ends the work. -/
def ofExcept {α : Type} : Except Fault α → Work m α
  | .ok value => return value
  | .error fault => fail fault

/-- Work of which a failure is told with what was to be done. -/
def within {α : Type} (purpose : String) (work : Work m α) : Work m α :=
  ExceptT.adapt (purpose :: ·) work

/-! ### Files -/

/-- Reads a file. -/
def readFile (host : Host m) (path : String) : Work m String := do
  match ← host.read path with
  | .ok content => return content
  | .error reason => fail (.file path reason)

/-- Writes a file below a directory. The directories above the file are made. -/
def writeFile (host : Host m) (directory : String) (file : GeneratedFile) : Work m Unit := do
  let target := Paths.join directory file.path
  let above := (Paths.parent? target).getD ""
  match ← host.makeDirectories above with
  | .error reason => fail (.file above reason)
  | .ok _ =>
    match ← host.write target file.content with
    | .error reason => fail (.file target reason)
    | .ok _ => return ()

/-- Writes files below a directory, one after the other. -/
def writeFiles (host : Host m) (directory : String) : List GeneratedFile → Work m Unit
  | [] => return ()
  | file :: rest => do
    writeFile host directory file
    writeFiles host directory rest

/-- The directory in which a path lies. -/
def directoryOf (path : String) : String :=
  ((Paths.parent? path).filter fun directory => !directory.isEmpty).getD "."

/-- The name that files get which are written for a path. -/
def stemOf (path : String) : Work m String :=
  match Paths.stem? path with
  | some stem => return stem
  | none => throw [s!"cannot derive a file name from {path}"]

/-! ### Settings -/

/-- Reads a settings file. -/
def readSettings (host : Host m) (path : String) : Work m Config := do
  ofExcept (Config.parse (← readFile host path))

/-- Reads the first of some paths at which there is a file; without one the settings have their
defaults. -/
def readFirstSettings (host : Host m) : List String → Work m Config
  | [] => return {}
  | path :: rest => do
    if ← host.isFile path then readSettings host path else readFirstSettings host rest

/-- The settings of a command, for which a file may be named. -/
def settings (host : Host m) (named? : Option String) : Work m Config :=
  within "failed to load configuration" do
    match named? with
    | none => readFirstSettings host (← host.settingsFiles)
    | some path =>
      if ← host.isThere path then readSettings host path
      else fail (.configuration s!"config file not found: {path}")

/-! ### Documents -/

/-- Loads the document in a file. -/
def document (host : Host m) (path : String) : Work m OpenApi.Document :=
  within s!"failed to load {path}" do
    let content ← readFile host path
    ofExcept (OpenApi.Document.parse content (.detect path content))

end Work

end ApiSurface.Cli
