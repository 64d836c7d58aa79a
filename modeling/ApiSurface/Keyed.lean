/-
This file keeps lists in which each element has a key. Putting an element replaces the first one of its
key in its place, or adds it at the end, so the order in which keys first appear never changes.
-/

namespace ApiSurface.Keyed

/-- Puts an element in the place of the first one with the same key, or at the end. -/
def put {Element Key : Type} [DecidableEq Key] (key : Element → Key) (element : Element) :
    List Element → List Element
  | [] => [element]
  | first :: rest =>
    if key first = key element then element :: rest else first :: put key element rest

/-- Puts elements one after the other. -/
def putAll {Element Key : Type} [DecidableEq Key] (key : Element → Key)
    (elements added : List Element) : List Element :=
  added.foldl (fun found element => put key element found) elements

/-- The first element with a key. -/
def find? {Element Key : Type} [DecidableEq Key] (key : Element → Key) (wanted : Key)
    (elements : List Element) : Option Element :=
  elements.find? fun element => key element = wanted

end ApiSurface.Keyed
