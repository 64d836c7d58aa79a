/-
This file follows JSON pointers. A pointer is empty or a sequence of steps that each start with a
slash; in a step `~1` stands for a slash and `~0` for a tilde. A step into an array is a position
written in decimal digits without a sign and without leading zeros.
-/

import ApiSurface.Json.Value
import ApiSurface.Text.Case
import ApiSurface.Text.Search

namespace ApiSurface.Json

/-- The name that a step of a pointer stands for. -/
def stepName (step : List Char) : String :=
  String.ofList (Text.replaceAll ['~', '0'] ['~'] (Text.replaceAll ['~', '1'] ['/'] step))

/-- The text of a step that stands for a name. -/
def stepText (name : String) : List Char :=
  Text.escapeWith
    (fun
      | '~' => some ['~', '0']
      | '/' => some ['~', '1']
      | _ => none)
    name.toList

/-- The number that a run of decimal digits stands for. -/
def natOfDigits (digits : List Char) : Nat :=
  digits.foldl (fun value digit => value * 10 + (digit.toNat - '0'.toNat)) 0

/-- The position that a step names in an array. -/
def stepPosition? (name : String) : Option Nat :=
  match name.toList with
  | [] => none
  | ['0'] => some 0
  | '0' :: _ => none
  | digits => if digits.all Text.isDigit then some (natOfDigits digits) else none

/-- The value that one step leads to. -/
def step? (value : Json) (name : String) : Option Json :=
  match value with
  | .object members => Members.get? members name
  | .array items => (stepPosition? name).bind fun position => items[position]?
  | _ => none

/-- The names of the steps of a pointer, or nothing when it starts with no slash. -/
def pointerSteps? (pointer : String) : Option (List String) :=
  match pointer.toList with
  | [] => some []
  | '/' :: rest => some ((rest.splitOnP (· == '/')).map stepName)
  | _ => none

/-- The value that a sequence of steps leads to. -/
def follow? (value : Json) : List String → Option Json
  | [] => some value
  | name :: rest => (step? value name).bind fun next => follow? next rest

/-- The value that a pointer leads to. -/
def pointer? (value : Json) (pointer : String) : Option Json :=
  (pointerSteps? pointer).bind (follow? value)

end ApiSurface.Json
