/-
This file says what commands need of the system that they run on: to read and write files, to look at
the environment, and someone who writes documentation. Commands are written against this alone, so they
run on a real system and on a tree of files in the same way.
-/

import ApiSurface.Docgen.Attempt
import ApiSurface.Paths

namespace ApiSurface.Cli

/-- What commands need of a system. A reason is the text of what went wrong. -/
structure Host (m : Type → Type) where
  /-- Reads a file, or gives the reason why not. -/
  read : String → m (Except String String)
  /-- Whether there is something at a path. -/
  isThere : String → m Bool
  /-- Whether there is a file at a path. -/
  isFile : String → m Bool
  /-- Writes a file, or gives the reason why not. -/
  write : String → String → m (Except String Unit)
  /-- Makes a directory and all above it, or gives the reason why not. -/
  makeDirectories : String → m (Except String Unit)
  /-- The value of a variable of the environment. -/
  setting? : String → m (Option String)
  /-- Whether the output goes to a terminal. -/
  terminal : m Bool
  /-- Documents the function of a name when it is asked for the name the given number of times. -/
  writer : String → Nat → Docgen.Outcome

namespace Host

variable {m : Type → Type} [Monad m] (host : Host m)

/-- Whether the output has colors. The environment may force them or refuse them; otherwise a terminal
gets them. -/
def colors : m Bool := do
  let forced ← host.setting? "CLICOLOR_FORCE"
  if forced.any (· != "0") then return true
  if (← host.setting? "NO_COLOR").isSome then return false
  let wanted ← host.setting? "CLICOLOR"
  return wanted != some "0" && (← host.terminal)

/-- The directory for the settings of the user, if the environment tells it. -/
def settingsDirectory? : m (Option String) := do
  let named ← host.setting? "XDG_CONFIG_HOME"
  match named.filter (String.startsWith · "/") with
  | some directory => return some directory
  | none =>
    let home ← host.setting? "HOME"
    return (home.filter fun directory => !directory.isEmpty).map (Paths.join · ".config")

/-- The settings files that are looked for where none is named: one in the working directory, and one of
the user. -/
def settingsFiles : m (List String) := do
  let directory? ← host.settingsDirectory?
  return "apiforge.toml" :: (directory?.map (Paths.join · "apiforge/config.toml")).toList

end Host

end ApiSurface.Cli
