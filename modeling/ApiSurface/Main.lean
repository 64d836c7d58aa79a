/-
This file is the program: it lets command lines run on the system that it is started on. It cannot reach
a model, so every function that it is to document stays without documentation.
-/

import ApiSurface.Cli.FileTree
import ApiSurface.Cli.Run

namespace ApiSurface.Cli

/-- The reason that a failure of the system gives. -/
def reasonOf : IO.Error → String
  | .noFileOrDirectory _ _ _ => Obstacle.missing.reason
  | .alreadyExists _ code detail | .inappropriateType _ code detail
  | .permissionDenied _ code detail | .resourceExhausted _ code detail
  | .invalidArgument _ code detail | .noSuchThing _ code detail | .otherError code detail =>
    s!"{detail} (os error {code})"
  | failure => toString failure

/-- Does something on the system, or gives the reason why not. -/
def attempted {α : Type} (action : IO α) : IO (Except String α) := do
  try return .ok (← action)
  catch failure => return .error (reasonOf failure)

/-- Reads a file, which must hold text. -/
def readText (path : String) : IO String := do
  match String.fromUTF8? (← IO.FS.readBinFile path) with
  | some content => return content
  | none => throw (IO.userError "stream did not contain valid UTF-8")

/-- Whether something can be done. -/
def succeeds {α : Type} (action : IO α) : IO Bool := do
  return (← attempted action).toOption.isSome

/-- The system that the program is started on. -/
def systemHost : Host IO where
  read path := attempted (readText path)
  isThere path := succeeds (IO.FS.Handle.mk path .read)
  isFile path := succeeds (IO.FS.readBinFile path)
  write path content := attempted (IO.FS.writeFile path content)
  makeDirectories path := attempted (IO.FS.createDirAll path)
  setting? name := IO.getEnv name
  terminal := do (← IO.getStdout).isTty
  writer _ _ := Docgen.unreachable

end ApiSurface.Cli

/-- Carries out the command line that the program is started with. -/
def main (arguments : List String) : IO UInt32 := do
  let outcome ← ApiSurface.Cli.run ApiSurface.Cli.systemHost arguments
  IO.print outcome.output
  IO.eprint outcome.errors
  return UInt32.ofNat outcome.code
