/-
This file holds JSON values and the operations on the members of an object. The members form a list
in the order in which they were written, because that order is visible in everything the library
writes. Putting a key that is there keeps its place; taking a key out moves the last member into the
gap, so that every operation touches at most two places. A value found under a key of an object is smaller
than the object, so a function that follows keys ends.
-/

import ApiSurface.Decimal.Shortest

namespace ApiSurface

/-- A JSON number: a whole number where the text wrote one, a double otherwise. -/
inductive Json.Number where
  | int (value : Int)
  | double (value : Decimal.Binary64)
  deriving DecidableEq, Repr, Inhabited

/-- A JSON value. -/
inductive Json where
  | null
  | bool (value : Bool)
  | number (value : Json.Number)
  | text (value : String)
  | array (items : List Json)
  | object (members : List (String × Json))
  deriving Repr, Inhabited

namespace Json

/-- The members of an object, in their order, with pairwise different keys. -/
abbrev Members := List (String × Json)

/-! ### Numbers -/

/-- The least whole number that is kept as one. -/
def leastInt : Int := -(Decimal.twoTo 63 : Nat)

/-- The greatest whole number that is kept as one. -/
def greatestInt : Int := (Decimal.twoTo 64 : Nat) - 1

/-- A whole number is never the same as a double; the two zeros are the same double. -/
def Number.same : Number → Number → Bool
  | .int left, .int right => left == right
  | .double left, .double right => (left.isZero && right.isZero) || left == right
  | _, _ => false

/-- The numerator and the positive denominator of a number. -/
def Number.ratio : Number → Int × Nat
  | .int value => (value, 1)
  | .double value => value.signedRatio

/-- Compares two numbers by value, whichever way they are held. -/
def Number.compareValue (left right : Number) : Ordering :=
  let (leftNumerator, leftDenominator) := left.ratio
  let (rightNumerator, rightDenominator) := right.ratio
  compare (leftNumerator * rightDenominator) (rightNumerator * leftDenominator)

/-- The text of a number. -/
def Number.text : Number → List Char
  | .int value => Decimal.intText value
  | .double value => value.text

/-! ### Members -/

namespace Members

/-- The value under a key. -/
def get? (members : Members) (key : String) : Option Json :=
  members.lookup key

/-- Whether there is a member with the key. -/
def contains (members : Members) (key : String) : Bool :=
  members.any fun member => member.1 == key

/-- The keys in their order. -/
def keys (members : Members) : List String :=
  members.map Prod.fst

/-- Puts a value under a key: in the place of the key if it is there, else at the end. -/
def insert (members : Members) (key : String) (value : Json) : Members :=
  match members with
  | [] => [(key, value)]
  | (name, old) :: rest =>
    if name = key then (name, value) :: rest else (name, old) :: insert rest key value

/-- Puts a value under a key unless the key is there. -/
def insertNew (members : Members) (key : String) (value : Json) : Members :=
  if members.contains key then members else members ++ [(key, value)]

/-- Puts the members of `added` one after the other. -/
def insertAll (members added : Members) : Members :=
  added.foldl (fun result member => insert result member.1 member.2) members

/-- Takes a key out; the last member moves into its place. -/
def erase (members : Members) (key : String) : Members :=
  match members.span fun member => member.1 != key with
  | (before, []) => before
  | (before, _ :: after) =>
    match after.getLast? with
    | none => before
    | some last => before ++ last :: after.dropLast

/-- Members given one after the other, where a later one replaces an earlier one of its key. -/
def ofList (members : List (String × Json)) : Members :=
  insertAll [] members

end Members

/-! ### Views -/

/-- The text that a value is, if it is one. -/
def asText? : Json → Option String
  | .text value => some value
  | _ => none

/-- The truth value that a value is, if it is one. -/
def asBool? : Json → Option Bool
  | .bool value => some value
  | _ => none

/-- The items of a value that is an array. -/
def asArray? : Json → Option (List Json)
  | .array items => some items
  | _ => none

/-- The members of a value that is an object. -/
def asObject? : Json → Option Members
  | .object members => some members
  | _ => none

/-- The natural number that a value is, if it is one. -/
def asNat? : Json → Option Nat
  | .number (.int value) => if 0 ≤ value then some value.toNat else none
  | _ => none

/-- Whether the value is null. -/
def isNull : Json → Bool
  | .null => true
  | _ => false

/-- The value under a key of an object; a value of another kind has none. -/
def get? : Json → String → Option Json
  | .object members, key => Members.get? members key
  | _, _ => none

/-- The text under a key of an object. -/
def textAt? (value : Json) (key : String) : Option String :=
  (value.get? key).bind asText?

/-- A whole number as a value. -/
def ofInt (value : Int) : Json := .number (.int value)

/-- A natural number as a value. -/
def ofNat (value : Nat) : Json := .number (.int value)

/-- A list of texts as a value. -/
def ofTexts (texts : List String) : Json := .array (texts.map .text)

/-- A text, or null when there is none. -/
def ofText? : Option String → Json
  | some value => .text value
  | none => .null

/-! ### Sameness -/

mutual

/-- Whether two values are the same, where the order of members does not count. -/
def same : Json → Json → Bool
  | .null, .null => true
  | .bool left, .bool right => left == right
  | .number left, .number right => left.same right
  | .text left, .text right => left == right
  | .array left, .array right => sameItems left right
  | .object left, .object right => left.length == right.length && sameMembers left right
  | _, _ => false

/-- Whether two lists hold the same values in the same order. -/
def sameItems : List Json → List Json → Bool
  | [], [] => true
  | left :: lefts, right :: rights => same left right && sameItems lefts rights
  | _, _ => false

/-- Whether each member on the left has the same value on the right. -/
def sameMembers : List (String × Json) → List (String × Json) → Bool
  | [], _ => true
  | (key, value) :: rest, right =>
    (match right.lookup key with
      | some other => same value other
      | none => false) && sameMembers rest right

end

/-! ### Sizes -/

theorem sizeOf_lt_of_mem {members : List (String × Json)} {key : String} {value : Json}
    (member : (key, value) ∈ members) : sizeOf value < sizeOf members := by
  have smaller := List.sizeOf_lt_of_mem member
  simp only [Prod.mk.sizeOf_spec] at smaller
  omega

/-- A value under a key is smaller than the object. -/
theorem Members.sizeOf_get? {members : Members} {key : String} {value : Json}
    (found : members.get? key = some value) : sizeOf value < sizeOf members := by
  obtain ⟨before, after, whole, -⟩ := List.lookup_eq_some_iff.mp found
  rw [whole]
  exact sizeOf_lt_of_mem (List.mem_append_right _ List.mem_cons_self)

end Json

end ApiSurface
