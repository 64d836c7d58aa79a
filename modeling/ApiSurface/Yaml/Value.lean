/-
This file turns a tree of nodes into a value: scalars get their kind, and an alias is replaced by what
its anchor names. Anchors are numbered by how many names there were before, and an alias means the node
that was last given the number of its name. A node that holds an alias of itself has no value, and a
mapping holds no key twice. Two bounds keep the value small: collections are nested at most 128 deep,
and no more than a hundred aliases are followed for each event of the document.
-/

import ApiSurface.Yaml.Scalar

namespace ApiSurface.Yaml

/-- A value with what it took to make it. -/
structure Made where
  /-- The value. -/
  value : Yaml
  /-- How many aliases were followed. -/
  follows : Nat
  /-- How deep collections are nested in it. -/
  depth : Nat
  deriving Repr, Inhabited

/-- The anchors met so far. -/
structure Anchors where
  /-- The numbers of the names, the latest first. -/
  numbers : List (String × Nat)
  /-- How many different names there are. -/
  names : Nat
  /-- The nodes of the numbers, the latest first; one that is not finished has no value yet. -/
  nodes : List (Nat × Option Made)
  deriving Repr, Inhabited

namespace Anchors

/-- No anchors. -/
def empty : Anchors := ⟨[], 0, []⟩

/-- Gives a name the next number. -/
def declare (anchors : Anchors) : Option String → Anchors × Option Nat
  | none => (anchors, none)
  | some name =>
    let isNew := (anchors.numbers.lookup name).isNone
    ({ numbers := (name, anchors.names) :: anchors.numbers
       names := if isNew then anchors.names + 1 else anchors.names
       nodes := (anchors.names, none) :: anchors.nodes }, some anchors.names)

/-- Finishes the node of a number. -/
def finish (anchors : Anchors) (number : Option Nat) (made : Made) : Anchors :=
  match number with
  | none => anchors
  | some number =>
    { anchors with
      nodes := anchors.nodes.map fun entry =>
        if entry.1 = number && entry.2.isNone then (number, some made) else entry }

/-- The node that an alias means. -/
def follow? (anchors : Anchors) (name : String) : Option Made := do
  let number ← anchors.numbers.lookup name
  let node ← anchors.nodes.lookup number
  let made ← node
  return { made with follows := made.follows + 1 }

end Anchors

/-- How deep collections may be nested. -/
def maxNesting : Nat := 128

/-- A collection with the given parts, if it is not nested too deep. -/
def collection? (tag : Option String) (value : Yaml) (parts : List Made) : Option Made := do
  let depth := parts.foldl (fun deepest part => max deepest part.depth) 0 + 1
  if maxNesting < depth then none
  let value ← underTag? tag value
  return ⟨value, (parts.map Made.follows).foldr (· + ·) 0, depth⟩

/-- Whether a key is among those before it. -/
def repeatsKey : List (Yaml × Yaml) → Bool
  | [] => false
  | (key, _) :: rest => (rest.any fun entry => same key entry.1) || repeatsKey rest

mutual

/-- Makes the value of a node. -/
def make (anchors : Anchors) : Node → Option (Made × Anchors)
  | .alias name => (anchors.follow? name).map fun made => (made, anchors)
  | .scalar properties content plain => do
    let (anchors, place) := anchors.declare properties.anchor
    let made : Made := ⟨← ofScalar? properties.tag content plain, 0, 0⟩
    return (made, anchors.finish place made)
  | .sequence properties items => do
    let (anchors, place) := anchors.declare properties.anchor
    let (items, anchors) ← makeItems anchors items
    let made ← collection? properties.tag (.sequence (items.map Made.value)) items
    return (made, anchors.finish place made)
  | .mapping properties entries => do
    let (anchors, place) := anchors.declare properties.anchor
    let (entries, anchors) ← makeEntries anchors entries
    let values := entries.map fun entry => (entry.1.value, entry.2.value)
    if repeatsKey values then none
    let made ← collection? properties.tag (.mapping values)
      (entries.flatMap fun entry => [entry.1, entry.2])
    return (made, anchors.finish place made)

/-- Makes the values of nodes in their order. -/
def makeItems (anchors : Anchors) : List Node → Option (List Made × Anchors)
  | [] => some ([], anchors)
  | node :: rest => do
    let (made, anchors) ← make anchors node
    let (others, anchors) ← makeItems anchors rest
    return (made :: others, anchors)

/-- Makes the keys and values of entries in their order. -/
def makeEntries (anchors : Anchors) : List (Node × Node) → Option (List (Made × Made) × Anchors)
  | [] => some ([], anchors)
  | (key, value) :: rest => do
    let (key, anchors) ← make anchors key
    let (value, anchors) ← make anchors value
    let (others, anchors) ← makeEntries anchors rest
    return ((key, value) :: others, anchors)

end

mutual

/-- The number of events that a node takes: one for a scalar or alias, two for the ends of a
collection. -/
def events : Node → Nat
  | .alias _ | .scalar _ _ _ => 1
  | .sequence _ items => 2 + eventsOfItems items
  | .mapping _ entries => 2 + eventsOfEntries entries

/-- The number of events that nodes take. -/
def eventsOfItems : List Node → Nat
  | [] => 0
  | node :: rest => events node + eventsOfItems rest

/-- The number of events that entries take. -/
def eventsOfEntries : List (Node × Node) → Nat
  | [] => 0
  | (key, value) :: rest => events key + events value + eventsOfEntries rest

end

/-- The value of a document. -/
def ofNode? (node : Node) : Option Yaml := do
  let (made, _) ← make .empty node
  if 100 * events node < made.follows then none else some made.value

end ApiSurface.Yaml
