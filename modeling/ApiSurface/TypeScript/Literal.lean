/-
This file writes texts as literals of TypeScript. A string literal is written as JSON writes a text,
which the language reads in the same way.
-/

import ApiSurface.Json.Writer
import ApiSurface.Text.Case

namespace ApiSurface.TypeScript

/-- A text as a string literal. -/
def stringLiteral (text : String) : String :=
  (Json.text text).compact

/-- Whether a character may start the name of a property that needs no quotation marks. -/
def startsProperty (character : Char) : Bool :=
  Text.startsName character || character == '$'

/-- Whether a character may continue such a name. -/
def continuesProperty (character : Char) : Bool :=
  Text.continuesName character || character == '$'

/-- The name of a property in a type: bare if that is allowed, otherwise a string literal. -/
def propertyKey (name : String) : String :=
  match name.toList with
  | [] => stringLiteral name
  | first :: rest =>
    if startsProperty first && rest.all continuesProperty then name else stringLiteral name

end ApiSurface.TypeScript
