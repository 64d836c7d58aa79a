/-
This file hands out names that are pairwise different. A name that is taken is extended, for a
parameter by the place in which it travels, and then by a number, from 2 up to a bound.
-/

import ApiSurface.Decimal.Shortest
import ApiSurface.Name.Identifier

namespace ApiSurface.Name

/-- The names that are taken. -/
structure Allocator where
  /-- The taken names, the latest first. -/
  taken : List String
  deriving Repr, Inhabited

namespace Allocator

/-- The greatest number that a name is extended by. -/
def maxTiebreak : Nat := 1000

/-- No name is taken. -/
def empty : Allocator := ⟨[]⟩

/-- For the parameters of one method: no name of a receiver is free. -/
def forParameters : Allocator := ⟨receivers⟩

/-- The members that every client class has. -/
def clientMembers : List String := ["constructor", "list_tools", "baseUrl", "headers"]

/-- For the methods of a client: no member that every client class has is free. -/
def forMethods : Allocator := ⟨clientMembers⟩

/-- Whether a name is taken. -/
def isTaken (names : Allocator) (name : String) : Bool := names.taken.contains name

/-- Takes a name. -/
def take (names : Allocator) (name : String) : Allocator := ⟨name :: names.taken⟩

/-- A name extended by a number. -/
def numbered (base : String) (number : Nat) : String :=
  base ++ "_" ++ String.ofList (Decimal.natText number)

/-- The first free name among the base extended by `number` and the numbers after it, `count` of
them. -/
def firstFree? (names : Allocator) (base : String) (number : Nat) : Nat → Option String
  | 0 => none
  | count + 1 =>
    if names.isTaken (numbered base number) then firstFree? names base (number + 1) count
    else some (numbered base number)

/-- The first free name among the base and the base extended by the numbers from 2 to the bound. -/
def free? (names : Allocator) (base : String) : Option String :=
  if names.isTaken base then firstFree? names base 2 (maxTiebreak - 1) else some base

/-- Takes the first free name for a base. -/
def claimTiebreak (names : Allocator) (base : String) : Except Fault (String × Allocator) :=
  match names.free? base with
  | some name => .ok (name, names.take name)
  | none => .error (.nameCollision base maxTiebreak)

/-- Takes a name for a parameter in a place. -/
def claim (names : Allocator) (base : String) (location : Location) :
    Except Fault (String × Allocator) :=
  if names.isTaken base then names.claimTiebreak (base ++ location.suffix)
  else .ok (base, names.take base)

end Allocator

end ApiSurface.Name
