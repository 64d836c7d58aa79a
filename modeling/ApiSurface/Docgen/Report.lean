/-
This file puts documentation above functions and reports what became of each of them. The lines of the
source stay as they are and in their order; a function whose documentation failed gets none, and the
others are not affected.
-/

import ApiSurface.Docgen.Attempt
import ApiSurface.Docgen.Site
import ApiSurface.DocBlock.Comment

namespace ApiSurface.Docgen

/-- What became of the functions of a source. -/
structure Report where
  /-- The source with the new comments. -/
  source : String
  /-- The functions that were documented, in the order of the source. -/
  documented : List String
  /-- The functions that were not, each with the cause. -/
  failed : List (String × DocgenFault)
  deriving Inhabited

namespace Report

/-- Whether the source was changed. -/
def changed (report : Report) : Bool := !report.documented.isEmpty

end Report

/-! ### Comments -/

/-- Puts a comment above the line of a function. -/
def putAbove (lines : List (List Char)) (entry : FunctionSite × String) : List (List Char) :=
  lines.insertIdx entry.1.line (DocBlock.commentChars entry.2.toList entry.1.indent.toList)

/-- Whether one comment is put in no later than another. -/
def isBelow (first second : FunctionSite × String) : Bool :=
  second.1.line ≤ first.1.line

/-- Puts comments above the lines of functions. The later lines come first, so that the numbers of the
earlier ones stay what they are. -/
def insertFromBelow (written : List (FunctionSite × String)) (lines : List (List Char)) :
    List (List Char) :=
  (written.mergeSort isBelow).foldl putAbove lines

/-- A source with a comment above each of some functions. -/
def insertComments (source : String) (written : List (FunctionSite × String)) : String :=
  let lines := insertFromBelow written (Text.lines source.toList)
  let ending := if source.toList.getLast? = some '\n' then ['\n'] else []
  String.ofList (Text.joinLines lines ++ ending)

/-! ### Reports -/

/-- The functions whose documentation was written. -/
def writtenOf (results : List (FunctionSite × Outcome)) : List (FunctionSite × String) :=
  results.filterMap fun (site, outcome) => outcome.toOption.map fun text => (site, text)

/-- The functions whose documentation failed. -/
def failedOf (results : List (FunctionSite × Outcome)) : List (String × DocgenFault) :=
  results.filterMap fun (site, outcome) =>
    match outcome with
    | .ok _ => none
    | .error fault => some (site.name, fault)

/-- The report on a source in which these results were obtained. -/
def reportOn (source : String) (results : List (FunctionSite × Outcome)) : Report where
  source := insertComments source (writtenOf results)
  documented := (writtenOf results).map fun entry => entry.1.name
  failed := failedOf results

/-! ### Runs -/

/-- How often a writer was asked for the functions with each name. -/
abbrev Calls := List (String × Nat)

/-- How often a writer was asked for the functions with a name. -/
def Calls.count (calls : Calls) (name : String) : Nat :=
  (calls.lookup name).getD 0

/-- The calls after some more for a name. -/
def Calls.add (calls : Calls) (name : String) (count : Nat) : Calls :=
  (name, calls.count name + count) :: calls.filter fun entry => entry.1 != name

/-- Asks a writer for the functions one after the other. Its answers depend on the name of the function
and on how often it was asked for that name before. -/
def askAll (writer : String → Nat → Outcome) (maxAttempts : Nat) (calls : Calls) :
    List FunctionSite → List (FunctionSite × Outcome) × Calls
  | [] => ([], calls)
  | site :: rest =>
    let made := calls.count site.name
    let attempted := attempt site.name (fun number => writer site.name (made + number)) maxAttempts
    let (results, calls) := askAll writer maxAttempts (calls.add site.name attempted.calls) rest
    ((site, attempted.result) :: results, calls)

/-- Documents the functions of a source that have no documentation; also tells how often the writer was
asked. -/
def run [TypeScript.Parser] (source : String) (writer : String → Nat → Outcome)
    (maxAttempts : Nat) : Report × Calls :=
  let (results, calls) := askAll writer maxAttempts [] (FunctionSite.undocumented source)
  (reportOn source results, calls)

/-- What a file holds after its source was documented: it is written only if something changed. -/
def fileAfter (source : String) (report : Report) : String :=
  if report.changed then report.source else source

end ApiSurface.Docgen
