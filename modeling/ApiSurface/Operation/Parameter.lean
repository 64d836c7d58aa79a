/-
This file reads what a document declares about a single value: its schema, what it is, whether it must
be given, and an example. A value is a file if its schema is that of binary content, or of an array of
such.
-/

import ApiSurface.OpenApi.Document
import ApiSurface.TypeScript.Type

namespace ApiSurface

open Json (Members)

/-- A value that a caller gives, as the document declares it. -/
structure Operation.Parameter where
  /-- The name under which it is sent. -/
  name : String
  /-- The schema of the value. -/
  schema : Json
  /-- What it is, or nothing. -/
  description : String
  /-- Whether it must be given. -/
  required : Bool
  /-- An example of it. -/
  example? : Option Json
  /-- Whether it is a file. -/
  isFile : Bool
  deriving Repr, Inhabited

namespace Operation.Parameter

/-- Whether a schema is that of a file or of a list of files. -/
def isFileSchema (schema : Json) : Bool :=
  TypeScript.isBinary schema ||
    (schema.textAt? "type" == some "array" && (schema.get? "items").any TypeScript.isBinary)

/-- The first member of an object under a key. -/
def firstAt? (value : Json) (key : String) : Option Json :=
  match value.get? key with
  | some (.object ((_, first) :: _)) => some first
  | _ => none

/-- The schema that a declaration gives, itself or for its first media type. -/
def schemaOf (declaration : Json) : Json :=
  match declaration.get? "schema" with
  | some schema => schema
  | none => ((firstAt? declaration "content").bind fun media => media.get? "schema").getD (.object [])

/-- The example that a declaration gives, directly, as the first of several or with its schema. -/
def exampleOf? (declaration schema : Json) : Option Json :=
  match declaration.get? "example" with
  | some found => some found
  | none =>
    match (firstAt? declaration "examples").bind fun first => first.get? "value" with
    | some found => some found
    | none => schema.get? "example"

/-- The text of the description that a declaration gives, or else its schema. -/
def descriptionOf (declaration schema : Json) : String :=
  let found := match declaration.get? "description" with
    | some found => some found
    | none => schema.get? "description"
  (found.bind Json.asText?).getD ""

/-- A parameter in the path or the query. -/
def ofDeclaration (name : String) (declaration : Json) : Parameter :=
  let schema := schemaOf declaration
  { name
    schema
    description := descriptionOf declaration schema
    required := ((declaration.get? "required").bind Json.asBool?).getD false
    example? := exampleOf? declaration schema
    isFile := isFileSchema schema }

/-- A body as a whole. The description of its schema comes before its own. -/
def ofBody (name : String) (schema : Json) (description : String) (required : Bool) : Parameter :=
  { name
    schema
    description := (schema.textAt? "description").getD description
    required
    example? := schema.get? "example"
    isFile := isFileSchema schema }

/-- One property of a body. -/
def ofProperty (name : String) (property : Json) (required : Bool) : Parameter :=
  { name
    schema := property
    description := (property.textAt? "description").getD ""
    required
    example? := property.get? "example"
    isFile := isFileSchema property }

/-- The properties of a body, without those that can only be read. A property must be given if the
schema requires it and the body must be given. -/
def ofProperties (schema : Json) (bodyRequired : Bool) : List Parameter :=
  let members : Members := schema.asObject?.getD []
  let required := TypeScript.textsAt members "required"
  let properties : Members := ((members.get? "properties").bind Json.asObject?).getD []
  let writable := properties.filter fun (_, property) =>
    (property.get? "readOnly").bind Json.asBool? != some true
  writable.map fun (name, property) =>
    ofProperty name property (bodyRequired && required.contains name)

end Operation.Parameter

end ApiSurface
