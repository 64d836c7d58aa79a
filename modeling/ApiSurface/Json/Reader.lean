/-
This file reads a JSON text: its tokens drive a machine that keeps, for every array or object that is
still open, what was read of it. The machine looks at each token once and never goes back. A text is
refused when it holds anything after its value or when arrays and objects are nested too deep.
-/

import ApiSurface.Json.Token

namespace ApiSurface.Json

/-- An array or object that is still open, with what was read of it so far in reverse order. -/
inductive Frame where
  | array (items : List Json)
  | object (members : List (String × Json)) (key : String)
  deriving Repr, Inhabited

/-- What the machine expects next. -/
inductive Expecting where
  /-- A value must come. -/
  | anyValue (frames : List Frame)
  /-- An array was opened: a value or its end comes. -/
  | firstItem (frames : List Frame)
  /-- An object was opened: a key or its end comes. -/
  | firstKey (frames : List Frame)
  /-- After a comma in an object a key must come. -/
  | nextKey (members : List (String × Json)) (frames : List Frame)
  /-- After a key a colon must come. -/
  | separator (members : List (String × Json)) (key : String) (frames : List Frame)
  /-- After an item a comma or the end of the array comes. -/
  | itemEnd (items : List Json) (frames : List Frame)
  /-- After a member a comma or the end of the object comes. -/
  | memberEnd (members : List (String × Json)) (frames : List Frame)
  /-- The whole value was read. -/
  | finish (value : Json)
  deriving Repr, Inhabited

/-- Hands a complete value to the innermost open array or object. -/
def deliver (value : Json) : List Frame → Expecting
  | [] => .finish value
  | .array items :: frames => .itemEnd (value :: items) frames
  | .object members key :: frames => .memberEnd ((key, value) :: members) frames

/-- Takes the first token of a value, where at most `limit` arrays and objects may be open. -/
def beginValue (limit : Nat) (frames : List Frame) : Token → Option Expecting
  | .scalar value => some (deliver value frames)
  | .openArray => if frames.length < limit then some (.firstItem frames) else none
  | .openObject => if frames.length < limit then some (.firstKey frames) else none
  | _ => none

/-- The object whose members were read in reverse order. -/
def closedObject (members : List (String × Json)) : Json :=
  .object members.reverse

/-- Takes one token. -/
def Expecting.step (limit : Nat) : Expecting → Token → Option Expecting
  | .anyValue frames, token => beginValue limit frames token
  | .firstItem frames, .closeArray => some (deliver (.array []) frames)
  | .firstItem frames, token => beginValue limit (.array [] :: frames) token
  | .firstKey frames, .closeObject => some (deliver (.object []) frames)
  | .firstKey frames, .scalar (.text key) => some (.separator [] key frames)
  | .nextKey members frames, .scalar (.text key) => some (.separator members key frames)
  | .separator members key frames, .colon => some (.anyValue (.object members key :: frames))
  | .itemEnd items frames, .comma => some (.anyValue (.array items :: frames))
  | .itemEnd items frames, .closeArray => some (deliver (.array items.reverse) frames)
  | .memberEnd members frames, .comma => some (.nextKey members frames)
  | .memberEnd members frames, .closeObject => some (deliver (closedObject members) frames)
  | _, _ => none

/-- Takes tokens until none is left or one is refused. -/
def Expecting.run (limit : Nat) (state : Expecting) : List Token → Option Expecting
  | [] => some state
  | token :: rest => (state.step limit token).bind fun next => next.run limit rest

/-- How many arrays and objects may be nested in a text. -/
def nestingLimit : Nat := 127

/-- The value that a JSON text writes, where an object may hold a key more than once. -/
def readWritten? (text : String) : Option Json := do
  match ← (Expecting.anyValue []).run nestingLimit (← tokens? text.toList) with
  | .finish value => some value
  | _ => none

/-! ### Repeated keys -/

mutual

/-- The value in which of the members with one key the last one counts, in the place of the first. -/
def withoutRepeats : Json → Json
  | .array items => .array (itemsWithoutRepeats items)
  | .object members => .object (Members.ofList (membersWithoutRepeats members))
  | scalar => scalar

/-- Items of which no object holds a key more than once. -/
def itemsWithoutRepeats : List Json → List Json
  | [] => []
  | item :: rest => withoutRepeats item :: itemsWithoutRepeats rest

/-- Members in whose values no object holds a key more than once. -/
def membersWithoutRepeats : List (String × Json) → List (String × Json)
  | [] => []
  | (key, value) :: rest => (key, withoutRepeats value) :: membersWithoutRepeats rest

end

/-- The value that a JSON text stands for. -/
def parse? (text : String) : Option Json :=
  (readWritten? text).map withoutRepeats

end ApiSurface.Json
