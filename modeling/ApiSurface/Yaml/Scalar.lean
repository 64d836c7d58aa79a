/-
This file says what value a scalar stands for. A plain scalar is null, a truth value, a whole number in
one of four bases or a decimal number if it has the form of one, and otherwise a text; any other scalar
is a text. A tag of the core schema asks for one kind and refuses every text that is not of it.
-/

import ApiSurface.Yaml.Node

namespace ApiSurface

/-- A number of a YAML document. -/
inductive Yaml.Number where
  | int (value : Int)
  | double (value : Decimal.Binary64)
  | infinity (negative : Bool)
  | notANumber
  deriving DecidableEq, Repr, Inhabited

/-- A value of a YAML document. -/
inductive Yaml where
  | null
  | bool (value : Bool)
  | number (value : Yaml.Number)
  | text (value : String)
  | sequence (items : List Yaml)
  | mapping (entries : List (Yaml × Yaml))
  | tagged (tag : String) (value : Yaml)
  deriving Repr, Inhabited

namespace Yaml

/-! ### Plain scalars -/

/-- Whether a text is one of the spellings of null. -/
def isNullText (text : String) : Bool :=
  text ∈ ["null", "Null", "NULL", "~"]

/-- The truth value that a text spells. -/
def boolOf? (text : String) : Option Bool :=
  if text ∈ ["true", "True", "TRUE"] then some true
  else if text ∈ ["false", "False", "FALSE"] then some false
  else none

/-- The number that digits of a base stand for. -/
def digitsValue? (base : Nat) (digits : List Char) : Option Nat :=
  if digits.isEmpty then none
  else digits.foldlM
    (fun value digit => do
      let next ← Json.hexValue? digit
      if next < base then some (value * base + next) else none)
    0

/-- A text without the plus sign that it starts with. -/
def withoutPlus : List Char → List Char
  | '+' :: rest => rest
  | characters => characters

/-- A text without the sign that it starts with. -/
def withoutSign : List Char → List Char
  | '+' :: rest | '-' :: rest => rest
  | characters => characters

/-- Whether a text is a zero and further digits behind an optional sign; such a text is no number. -/
def hasLeadingZero (characters : List Char) : Bool :=
  match withoutSign characters with
  | '0' :: next :: rest => (next :: rest).all Text.isDigit
  | _ => false

/-- The size that a text without sign stands for, in base sixteen, eight, two or ten. -/
def sizeOf? : List Char → Option Nat
  | '0' :: 'x' :: digits => digitsValue? 16 digits
  | '0' :: 'o' :: digits => digitsValue? 8 digits
  | '0' :: 'b' :: digits => digitsValue? 2 digits
  | digits => if hasLeadingZero digits then none else digitsValue? 10 digits

/-- The whole number that a text stands for, if its size is below `2 ^ 128` and, for a negative one,
at most `2 ^ 127`. -/
def intOf? (characters : List Char) : Option Int :=
  match characters with
  | '-' :: rest => do
    let size ← sizeOf? rest
    if size ≤ Decimal.twoTo 127 then some (-(size : Int)) else none
  | _ => do
    let size ← sizeOf? (withoutPlus characters)
    if size < Decimal.twoTo 128 then some size else none

/-- The parts of a decimal number: its digits as one number, and the power of ten that scales them. -/
def decimalParts? (characters : List Char) : Option (Nat × Int) := do
  let whole := characters.takeWhile Text.isDigit
  let rest := characters.dropWhile Text.isDigit
  let (fraction, rest) := match rest with
    | '.' :: rest => (rest.takeWhile Text.isDigit, rest.dropWhile Text.isDigit)
    | rest => ([], rest)
  if whole.isEmpty && fraction.isEmpty then none
  let exponent ← match rest with
    | [] => some 0
    | mark :: rest =>
      if mark == 'e' || mark == 'E' then
        match rest with
        | '-' :: digits => (digitsValue? 10 digits).map fun size => -(size : Int)
        | '+' :: digits => (digitsValue? 10 digits).map fun size => (size : Int)
        | digits => (digitsValue? 10 digits).map fun size => (size : Int)
      else none
  return (Json.natOfDigits (whole ++ fraction), exponent - fraction.length)

/-- The decimal number, infinity or non-number that a text stands for. A number too large for a double
is none. -/
def floatOf? (characters : List Char) : Option Number :=
  let text := String.ofList characters
  let size := withoutPlus characters
  if String.ofList size ∈ [".inf", ".Inf", ".INF"] then some (.infinity false)
  else if text ∈ ["-.inf", "-.Inf", "-.INF"] then some (.infinity true)
  else if text ∈ [".nan", ".NaN", ".NAN"] then some .notANumber
  else
    let (negative, size) := match characters with
      | '-' :: rest => (true, rest)
      | _ => (false, size)
    match decimalParts? size with
    | some (digits, power) => (Decimal.Binary64.ofDecimal? negative digits power).map .double
    | none => none

/-- The value of a whole number; one that does not fit into 64 bits is refused. -/
def ofInt? (value : Int) : Option Yaml :=
  if Json.leastInt ≤ value && value ≤ Json.greatestInt then some (.number (.int value)) else none

/-- The value of a plain scalar. -/
def ofPlain? (text : String) : Option Yaml :=
  let characters := text.toList
  if text.isEmpty || isNullText text then some .null
  else
    match boolOf? text, intOf? characters with
    | some value, _ => some (.bool value)
    | none, some value => ofInt? value
    | none, none =>
      if hasLeadingZero characters then some (.text text)
      else
        match floatOf? characters with
        | some found => some (.number found)
        | none => some (.text text)

/-! ### Tags -/

/-- The name of a tag that is local to the document, without its exclamation mark. -/
def localTag? (tag : String) : Option String :=
  match tag.toList with
  | '!' :: name => some (String.ofList name)
  | _ => none

/-- The value of a scalar with a tag that is not local. -/
def ofTagged? (tag text : String) : Option Yaml :=
  match tag with
  | "tag:yaml.org,2002:bool" => (boolOf? text).map .bool
  | "tag:yaml.org,2002:int" => (intOf? text.toList).bind ofInt?
  | "tag:yaml.org,2002:float" => (floatOf? text.toList).map .number
  | "tag:yaml.org,2002:null" => if isNullText text then some .null else none
  | _ => some (.text text)

/-- Puts a value under its local tag, if the tag is local and has a name. -/
def underTag? (tag : Option String) (value : Yaml) : Option Yaml :=
  match tag.bind localTag? with
  | none => some value
  | some name => if name.isEmpty then none else some (.tagged name value)

/-- The value of a scalar. -/
def ofScalar? (tag : Option String) (text : String) (plain : Bool) : Option Yaml :=
  match tag with
  | none => if plain then ofPlain? text else some (.text text)
  | some name =>
    if (localTag? name).isSome then do
      underTag? tag (← if plain then ofPlain? text else some (.text text))
    else ofTagged? name text

/-! ### Sameness -/

/-- Two numbers are the same when they are held in the same way and equal; every non-number is the same
as any other. -/
def Number.same : Number → Number → Bool
  | .double left, .double right => (left.isZero && right.isZero) || left == right
  | left, right => left == right

mutual

/-- Whether two values are the same, where the order of entries does not count. -/
def same : Yaml → Yaml → Bool
  | .null, .null => true
  | .bool left, .bool right => left == right
  | .number left, .number right => left.same right
  | .text left, .text right => left == right
  | .sequence left, .sequence right => sameItems left right
  | .mapping left, .mapping right => left.length == right.length && sameEntries left right
  | .tagged left value, .tagged right other => left == right && same value other
  | _, _ => false

/-- Whether two lists hold the same values in the same order. -/
def sameItems : List Yaml → List Yaml → Bool
  | [], [] => true
  | left :: lefts, right :: rights => same left right && sameItems lefts rights
  | _, _ => false

/-- Whether each entry on the left is one of those on the right. -/
def sameEntries : List (Yaml × Yaml) → List (Yaml × Yaml) → Bool
  | [], _ => true
  | (key, value) :: rest, right =>
    (right.any fun entry => same key entry.1 && same value entry.2) && sameEntries rest right

end

end Yaml

end ApiSurface
