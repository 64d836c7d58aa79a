/-
This file says what a library for schemas offers: for a document that is a schema it makes a check, and a
check lists what is wrong with a value. Whatever checks values takes the library as it is given.
-/

import ApiSurface.Json.Value

namespace ApiSurface

/-- Something that is wrong with a value. -/
structure SchemaError where
  /-- The JSON pointer that leads to it in the value. -/
  place : String
  /-- What is wrong with it. -/
  text : String
  deriving DecidableEq, Repr, Inhabited

/-- The text of an error, which starts with the place unless that is the whole value. -/
def SchemaError.message (error : SchemaError) : String :=
  if error.place.isEmpty then error.text else s!"{error.place}: {error.text}"

/-- A library that checks values against schemas. -/
class SchemaLibrary where
  /-- The check that a document describes: all that is wrong with a value. There is none for a document
  that is no schema. -/
  checkFor? : Json → Option (Json → List SchemaError)

end ApiSurface
