/-
This file reads the hints of documentation as types. A hint is a word of a table or says what a list is
a list of, in the singular or in the plural; blanks around it and the case of its letters do not count.
Any other hint says nothing: its values are advertised as texts, and all values are accepted for it.
-/

import ApiSurface.Json.Value
import ApiSurface.Text.Blank
import ApiSurface.Text.Case
import ApiSurface.Text.Search

namespace ApiSurface

/-- The type of a value as documentation names it. -/
inductive FieldType where
  | text
  | integer
  | number
  | boolean
  | object
  /-- A list whose items may be anything. -/
  | list
  | listOf (item : FieldType)
  | file
  /-- No type that is known. -/
  | untyped
  deriving DecidableEq, Repr, Inhabited

namespace FieldType

/-- Whether nothing is known about the type. -/
def isUntyped : FieldType → Bool
  | .untyped => true
  | _ => false

/-! ### Hints -/

/-- The words that name a type. -/
def words : List (String × FieldType) :=
  [("str", .text), ("string", .text), ("text", .text), ("int", .integer), ("integer", .integer),
    ("float", .number), ("number", .number), ("bool", .boolean), ("boolean", .boolean),
    ("dict", .object), ("map", .object), ("object", .object), ("list", .list), ("array", .list),
    ("file", .file), ("binary", .file)]

/-- The type that a single word names. -/
def ofWord (word : List Char) : FieldType :=
  (words.lookup (String.ofList word)).getD .untyped

/-- The list of items of a type. -/
def ofItem : FieldType → FieldType
  | .untyped => .list
  | item => .listOf item

/-- What a hint says that a list is a list of. -/
def itemHint? (hint : List Char) : Option (List Char) :=
  (Text.dropLead? "list of ".toList hint).orElse fun _ => Text.dropLead? "array of ".toList hint

theorem length_of_itemHint? {hint item : List Char} (found : itemHint? hint = some item) :
    item.length < hint.length := by
  unfold itemHint? at found
  cases first : Text.dropLead? "list of ".toList hint with
  | some rest =>
    rw [first] at found
    cases found
    rw [Text.eq_append_of_dropLead? first, List.length_append]
    exact Nat.lt_add_of_pos_left (by decide)
  | none =>
    rw [first] at found
    rw [Text.eq_append_of_dropLead? found, List.length_append]
    exact Nat.lt_add_of_pos_left (by decide)

theorem length_dropEndWhile_le (test : Char → Bool) (text : List Char) :
    (Text.dropEndWhile test text).length ≤ text.length := by
  induction text with
  | nil => exact Nat.le_refl _
  | cons first rest inductionHypothesis =>
    rw [Text.dropEndWhile]
    split
    · split <;> simp
    · next kept => simpa using inductionHypothesis

/-- Trimming makes no text longer. -/
theorem length_trim_le (text : List Char) : (Text.trim text).length ≤ text.length :=
  Nat.le_trans (length_dropEndWhile_le _ _) (List.dropWhile_suffix _).length_le

/-- A text without one `s` at its end. -/
def singular (hint : List Char) : List Char :=
  (Text.dropTail? ['s'] hint).getD hint

theorem length_singular_le (hint : List Char) : (singular hint).length ≤ hint.length := by
  unfold singular
  cases found : Text.dropTail? ['s'] hint with
  | none => exact Nat.le_refl _
  | some rest => simp [Text.eq_append_of_dropTail? found]

/-- A hint in the form in which the table has it. -/
def plainHint (hint : List Char) : List Char :=
  Text.lower (Text.trim hint)

theorem length_plainHint_le (hint : List Char) : (plainHint hint).length ≤ hint.length := by
  simpa [plainHint, Text.lower] using length_trim_le hint

/-- The type that a hint names. The items of a list may be named in the plural. -/
def ofHintChars (hint : List Char) : FieldType :=
  match found : itemHint? (plainHint hint) with
  | none => ofWord (plainHint hint)
  | some item =>
    have : item.length < hint.length :=
      Nat.lt_of_lt_of_le (length_of_itemHint? found) (length_plainHint_le hint)
    have : (singular item).length < hint.length :=
      Nat.lt_of_le_of_lt (length_singular_le item) this
    match ofHintChars item with
    | .untyped => ofItem (ofHintChars (singular item))
    | known => ofItem known
termination_by hint.length

/-- The type that a hint names. -/
def ofHint (hint : String) : FieldType :=
  ofHintChars hint.toList

/-! ### Schemas -/

/-- The schema that only names a type. -/
def typeSchema (name : String) : Json :=
  .object [("type", .text name)]

/-- The schema that advertises the type. -/
def schema : FieldType → Json
  | .text | .untyped => typeSchema "string"
  | .integer => typeSchema "integer"
  | .number => typeSchema "number"
  | .boolean => typeSchema "boolean"
  | .object => typeSchema "object"
  | .file => .object [("type", .text "string"), ("format", .text "binary")]
  | .list => typeSchema "array"
  | .listOf item => .object [("type", .text "array"), ("items", item.schema)]

/-- The schema that values of the type are checked against. -/
def validationSchema : FieldType → Json
  | .untyped => .object []
  | .listOf item => .object [("type", .text "array"), ("items", item.validationSchema)]
  | known => known.schema

end FieldType

end ApiSurface
