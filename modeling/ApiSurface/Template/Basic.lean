/-
This file holds text templates and fills them in. A template is filled in with a JSON value, and every
value that it shows must be there: a name that leads nowhere is a failure, not an empty text. Only a
condition may ask for something that is missing. A list is gone through item by item, where each item
stands for the value that names are looked up in.
-/

import ApiSurface.Fault
import ApiSurface.Json.Pointer
import ApiSurface.Json.Writer

namespace ApiSurface

/-- An element of a template. -/
inductive Template.Element where
  /-- A text that stands for itself. -/
  | text (content : String)
  /-- The value that a path leads to. -/
  | value (path : List String)
  /-- A body for each item of the list that a path leads to, or another one if it has none. -/
  | each (path : List String) (body : List Element) (otherwise : Option (List Element))
  /-- A body if the value that a path leads to counts as true, another one if it does not. -/
  | when (path : List String) (body otherwise : List Element)
  /-- Another template, filled in with the same value. -/
  | inclusion (name : String)
  /-- Something that cannot be filled in. -/
  | unknown
  deriving Repr, Inhabited

/-- A template. -/
abbrev Template := List Template.Element

namespace Template

/-! ### Values -/

mutual

/-- How a value is shown: a text as it is, null not at all, and an object without what it holds. -/
def shown : Json → List Char
  | .null => []
  | .bool true => "true".toList
  | .bool false => "false".toList
  | .number value => value.text
  | .text value => value.toList
  | .array items => '[' :: shownItems items ++ [']']
  | .object _ => "[object]".toList

/-- How items are shown, with a comma and a space between each two. -/
def shownItems : List Json → List Char
  | [] => []
  | [item] => shown item
  | item :: next :: rest => shown item ++ ',' :: ' ' :: shownItems (next :: rest)

end

/-- Whether a double is far enough from zero to have all its bits. -/
def isNormal (number : Decimal.Binary64) : Bool :=
  Decimal.twoTo 52 ≤ number.mantissa

/-- Whether a value counts as true: neither null, false, zero nor empty. -/
def isTruthy : Json → Bool
  | .null => false
  | .bool value => value
  | .number (.int value) => value != 0
  | .number (.double value) => isNormal value
  | .text value => !value.isEmpty
  | .array items => !items.isEmpty
  | .object members => !members.isEmpty

/-- The items that a value is gone through by: those of an array, or the values of an object. -/
def itemsOf? : Json → Option (List Json)
  | .array items => some items
  | .object members => some (members.map Prod.snd)
  | _ => none

/-! ### Filling in -/

mutual

/-- Fills in an element; `included` fills in other templates. -/
def Element.fill (included : String → Json → Option (List Char)) (value : Json) :
    Element → Option (List Char)
  | .text content => some content.toList
  | .value path => (value.follow? path).map shown
  | .each path body otherwise =>
    match (value.follow? path).bind itemsOf?, otherwise with
    | some [], none => some []
    | some (first :: rest), _ =>
      ((first :: rest).mapM fun item => fillAll included item body).map List.flatten
    | _, some elements => fillAll included value elements
    | none, none => none
  | .when path body otherwise =>
    if (value.follow? path).any isTruthy then fillAll included value body
    else fillAll included value otherwise
  | .inclusion name => included name value
  | .unknown => none

/-- Fills in elements one after the other. -/
def fillAll (included : String → Json → Option (List Char)) (value : Json) :
    List Element → Option (List Char)
  | [] => some []
  | element :: rest => do
    let first ← element.fill included value
    return first ++ (← fillAll included value rest)

end

end Template

/-- Templates under their names. -/
abbrev TemplateLibrary := List (String × Template)

namespace TemplateLibrary

/-- Puts a template under a name. A new one hides an older one of its name. -/
def add (library : TemplateLibrary) (name : String) (template : Template) : TemplateLibrary :=
  (name, template) :: library

/-- Whether there is a template with a name. -/
def contains (library : TemplateLibrary) (name : String) : Bool :=
  library.any fun entry => entry.1 == name

/-- Fills in the template with a name, where inclusions may be nested to the given depth. -/
def fillTo (library : TemplateLibrary) : Nat → String → Json → Option (List Char)
  | 0, _, _ => none
  | depth + 1, name, value => do
    Template.fillAll (fillTo library depth) value (← library.lookup name)

/-- Fills in the template with a name. As no template may include itself, inclusions are never nested
deeper than there are templates. -/
def fill? (library : TemplateLibrary) (name : String) (value : Json) : Option String :=
  (library.fillTo library.length name value).map String.ofList

end TemplateLibrary

end ApiSurface
