/-
This file sorts the methods of a client into segments by the topic of their paths. The topic of a path
is its first piece that says something: a leading `api` and a version after it do not. Methods whose
path starts with a placeholder, or that have no path, stay with the client itself. Every segment is
held by a field of the client, whose name no method that stays there has.
-/

import ApiSurface.Client.Basic
import ApiSurface.Name.Allocator
import ApiSurface.Text.Case

namespace ApiSurface

/-- The methods of one topic. -/
structure Segment where
  /-- The topic. -/
  key : String
  /-- The name of the class of the segment. -/
  className : String
  /-- The field of the client that holds the segment. -/
  field : String
  /-- The methods, in the order of the client. -/
  methods : List Method
  deriving Repr, Inhabited

/-- The methods of a client, sorted by topic. -/
structure Partition where
  /-- The segments, in the order in which their topics first appear. -/
  segments : List Segment
  /-- The methods that stay with the client, in its order. -/
  root : List Method
  deriving Repr, Inhabited

namespace Partition

/-- The number of methods in segments and outside. -/
def count (partition : Partition) : Nat :=
  partition.root.length +
    (partition.segments.map fun segment => segment.methods.length).foldr (· + ·) 0

/-- The names of the methods, first those in segments. -/
def methodNames (partition : Partition) : List String :=
  (partition.segments.flatMap Segment.methods ++ partition.root).map Method.name

end Partition

namespace Client

open Name (Allocator)

/-! ### Topics -/

/-- Whether a piece is a version: numbers with points between them, perhaps after a `v`. -/
def isVersion (piece : List Char) : Bool :=
  let numbers := match piece with
    | 'v' :: rest | 'V' :: rest => rest
    | numbers => numbers
  (numbers.splitOnP (· == '.')).all fun number => !number.isEmpty && number.all Text.isDecimal

/-- Drops the first piece if it satisfies the test. -/
def dropFirstIf (test : List Char → Bool) : List (List Char) → List (List Char)
  | [] => []
  | piece :: rest => if test piece then rest else piece :: rest

/-- The topic that a piece names; a placeholder names none. -/
def topicOfPiece? (piece : List Char) : Option String :=
  if piece.head? = some '\x7b' then none
  else
    let key := Name.snake (String.ofList piece)
    if key.isEmpty then none else some key

/-- The topic of a path. -/
def topic? (path : String) : Option String :=
  let pieces := dropFirstIf (fun piece => Text.lower piece == "api".toList) (Name.pathPieces path)
  (dropFirstIf isVersion pieces).head?.bind topicOfPiece?

/-- The topic of a method. -/
def topicOf? (method : Method) : Option String :=
  method.marker.bind fun marker => topic? marker.path

/-! ### Segments -/

/-- The name of the class of a topic. -/
def segmentClass (key : String) : String :=
  Name.pascal key ++ "Segment"

/-- Adds a method to the methods of its topic, which comes last if it is new. -/
def addTo (key : String) (method : Method) :
    List (String × List Method) → List (String × List Method)
  | [] => [(key, [method])]
  | (name, methods) :: rest =>
    if name = key then (name, methods ++ [method]) :: rest
    else (name, methods) :: addTo key method rest

/-- The topics of methods in the order of their first appearance, each with its methods. -/
def topics (methods : List Method) : List (String × List Method) :=
  methods.foldl
    (fun groups method =>
      match topicOf? method with
      | some key => addTo key method groups
      | none => groups)
    []

/-- Takes the names of methods. -/
def claimAll (names : Allocator) : List Method → Except Fault Allocator
  | [] => .ok names
  | method :: rest => do
    let (_, names) ← names.claimTiebreak method.name
    claimAll names rest

/-- Makes a segment with a field of its own for each topic. -/
def segmentsFor (names : Allocator) : List (String × List Method) → Except Fault (List Segment)
  | [] => .ok []
  | (key, methods) :: rest => do
    let (field, names) ← names.claimTiebreak (Name.sanitize key)
    let segments ← segmentsFor names rest
    return ⟨key, segmentClass key, field, methods⟩ :: segments

/-- Sorts the methods of a client by topic. -/
def partition (client : Client) : Except Fault Partition := do
  let root := client.methods.filter fun method => (topicOf? method).isNone
  let names ← claimAll .forMethods root
  return ⟨← segmentsFor names (topics client.methods), root⟩

end Client

end ApiSurface
