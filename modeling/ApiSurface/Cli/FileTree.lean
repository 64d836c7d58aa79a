/-
This file holds trees of files, on which commands can run without a real system. A path is followed one
name at a time, and whatever it leads through must be a directory. Directories are kept as such, so one
can be there without any file in it.
-/

import ApiSurface.Cli.Host

namespace ApiSurface.Cli

/-- Where something is in a tree: the names on the way to it from the root. -/
abbrev Place := List String

/-- Why something cannot be done at a path. -/
inductive Obstacle where
  /-- There is nothing. -/
  | missing
  /-- There is a file already. -/
  | taken
  /-- There is a file where the path goes on. -/
  | notDirectory
  /-- There is a directory. -/
  | directory
  deriving DecidableEq, Repr, Inhabited

/-- The text of an obstacle. -/
def Obstacle.reason : Obstacle → String
  | .missing => "No such file or directory (os error 2)"
  | .taken => "File exists (os error 17)"
  | .notDirectory => "Not a directory (os error 20)"
  | .directory => "Is a directory (os error 21)"

/-- A tree of files. -/
structure FileTree where
  /-- The files with what they hold. -/
  files : List (Place × String) := []
  /-- The directories without the root. -/
  directories : List Place := []
  deriving DecidableEq, Repr, Inhabited

namespace FileTree

/-! ### Places -/

/-- What the file at a place holds. -/
def file? (tree : FileTree) (place : Place) : Option String :=
  tree.files.lookup place

/-- Whether there is a directory at a place. -/
def isDirectory (tree : FileTree) (place : Place) : Bool :=
  place.isEmpty || tree.directories.contains place

/-- The place with a file that holds a text. -/
def withFile (tree : FileTree) (place : Place) (content : String) : FileTree :=
  { tree with files := (place, content) :: tree.files.filter fun file => file.1 != place }

/-- The tree with a directory at a place. -/
def withDirectory (tree : FileTree) (place : Place) : FileTree :=
  { tree with directories := place :: tree.directories }

/-! ### Paths -/

/-- The place that a name leads to from a place: a dot stays, two dots go back. -/
def next (place : Place) (name : String) : Place :=
  if name = "" || name = "." then place
  else if name = ".." then place.dropLast
  else place ++ [name]

/-- The place from which a path is followed. -/
def start (working : Place) (path : String) : Place :=
  if path.startsWith "/" then [] else working

/-- Follows a name from a place, which must be a directory. -/
def follow (tree : FileTree) (place : Place) (name : String) : Except Obstacle Place :=
  if tree.isDirectory place then .ok (next place name)
  else .error (if (tree.file? place).isSome then .notDirectory else .missing)

/-- The place to which a path leads from the working directory; there need be nothing. -/
def locate (tree : FileTree) (working : Place) (path : String) : Except Obstacle Place :=
  if path.isEmpty then .error .missing
  else (path.splitOn "/").foldlM tree.follow (start working path)

/-! ### Files -/

/-- Reads the file at a path. -/
def read (tree : FileTree) (working : Place) (path : String) : Except Obstacle String := do
  let place ← tree.locate working path
  match tree.file? place with
  | some content => return content
  | none => .error (if tree.isDirectory place then .directory else .missing)

/-- Whether there is a file at a path. -/
def isFile (tree : FileTree) (working : Place) (path : String) : Bool :=
  match tree.locate working path with
  | .ok place => (tree.file? place).isSome
  | .error _ => false

/-- Whether there is something at a path. -/
def isThere (tree : FileTree) (working : Place) (path : String) : Bool :=
  match tree.locate working path with
  | .ok place => (tree.file? place).isSome || tree.isDirectory place
  | .error _ => false

/-- Writes a file. -/
def write (tree : FileTree) (working : Place) (path content : String) :
    Except Obstacle FileTree := do
  let place ← tree.locate working path
  if tree.isDirectory place then .error .directory else return tree.withFile place content

/-! ### Directories -/

/-- Makes the directories to which names lead from a place, one below the other. -/
def makeFrom (tree : FileTree) (place : Place) : List String → Except Obstacle FileTree
  | [] => .ok tree
  | name :: rest =>
    let below := next place name
    if tree.isDirectory below then makeFrom tree below rest
    else if (tree.file? below).isSome then
      .error (if rest.all String.isEmpty then .taken else .notDirectory)
    else makeFrom (tree.withDirectory below) below rest

/-- Makes the directory at a path and all above it. -/
def makeDirectories (tree : FileTree) (working : Place) (path : String) :
    Except Obstacle FileTree :=
  tree.makeFrom (start working path) (path.splitOn "/")

/-- The tree with the directory at a path and all above it, where that can be. -/
def preparedFor (tree : FileTree) (working : Place) (path : String) : FileTree :=
  match tree.makeDirectories working path with
  | .ok extended => extended
  | .error _ => tree

/-- The tree with a file at a path, where that can be. The directories above it are made. -/
def withFileAt (tree : FileTree) (working : Place) (path content : String) : FileTree :=
  let prepared := tree.preparedFor working ((Paths.parent? path).getD "")
  match prepared.write working path content with
  | .ok extended => extended
  | .error _ => prepared

/-! ### As a system -/

/-- Changes the tree of a state, or gives the reason why not. -/
def change (attempt : FileTree → Except Obstacle FileTree) :
    StateM FileTree (Except String Unit) := do
  match attempt (← get) with
  | .ok tree =>
    set tree
    return .ok ()
  | .error obstacle => return .error obstacle.reason

/-- A tree as a system with a working directory, an environment and a writer, and without a terminal. -/
def host (working : Place) (environment : List (String × String))
    (writer : String → Nat → Docgen.Outcome) : Host (StateM FileTree) where
  read path := do return ((← get).read working path).mapError Obstacle.reason
  isThere path := do return (← get).isThere working path
  isFile path := do return (← get).isFile working path
  write path content := change fun tree => tree.write working path content
  makeDirectories path := change fun tree => tree.makeDirectories working path
  setting? name := return environment.lookup name
  terminal := return false
  writer := writer

end FileTree

end ApiSurface.Cli
