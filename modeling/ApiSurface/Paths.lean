/-
This file takes file paths apart. A path is a text whose steps are separated by slashes; empty steps
and steps of a single dot, except the first, do not count. The name of a file ends in an extension if
it holds a dot that is not its first character.
-/

import ApiSurface.Text.Search

namespace ApiSurface.Paths

/-- A step of a path with the text that comes before it. -/
structure Step where
  /-- The text of the path up to the step. -/
  before : List Char
  /-- The step. -/
  name : List Char
  deriving DecidableEq, Repr, Inhabited

/-- The pieces between the slashes, each with the text before it. -/
def piecesFrom (before : List Char) : List (List Char) → List Step
  | [] => []
  | piece :: rest => ⟨before, piece⟩ :: piecesFrom (before ++ piece ++ ['/']) rest

/-- The steps of a path that count. A leading single dot counts. -/
def steps (path : List Char) : List Step :=
  (piecesFrom [] (path.splitOnP (· == '/'))).filter fun step =>
    !step.name.isEmpty && (step.name != ['.'] || step.before.isEmpty)

/-- The last step, if it is the name of a file. -/
def fileStep? (path : String) : Option Step :=
  match (steps path.toList).getLast? with
  | some step => if step.name = ['.'] || step.name = ['.', '.'] then none else some step
  | none => none

/-- Splits a name at its last dot, unless that is its first character. -/
def splitName (name : List Char) : List Char × Option (List Char) :=
  match name.reverse.span (· != '.') with
  | (_, []) => (name, none)
  | (_, [_]) => (name, none)
  | (extension, _ :: stem) => (stem.reverse, some extension.reverse)

/-- The extension of the file that a path names. -/
def extension? (path : String) : Option String := do
  let step ← fileStep? path
  return String.ofList (← (splitName step.name).2)

/-- The name of the file that a path names, without its extension. -/
def stem? (path : String) : Option String := do
  let step ← fileStep? path
  return String.ofList (splitName step.name).1

/-- The path with another extension; a path that names no file stays. -/
def withExtension (path extension : String) : String :=
  match fileStep? path with
  | none => path
  | some step =>
    String.ofList (step.before ++ (splitName step.name).1) ++ "." ++ extension

/-- The path of what holds the file or directory that a path names; the root has none. -/
def parent? (path : String) : Option String :=
  match (steps path.toList).reverse with
  | [] => none
  | [only] => some (if only.before.contains '/' then "/" else "")
  | _ :: previous :: _ => some (String.ofList (previous.before ++ previous.name))

/-- A path below another one. An absolute path stands for itself. -/
def join (base path : String) : String :=
  if path.startsWith "/" || base.isEmpty then path
  else if base.endsWith "/" then base ++ path
  else base ++ "/" ++ path

end ApiSurface.Paths
