/-
This file finds the operations of a document: for each path, in the order of the document, the verbs
that it declares. What a path declares for all its operations and what an operation declares for itself
are merged; the operation's own declaration wins wherever name and place are the same.
-/

import ApiSurface.Keyed
import ApiSurface.OpenApi.Document
import ApiSurface.Verb

namespace ApiSurface

open Json (Members)

/-- An operation of a document. -/
structure Operation where
  /-- The path, with placeholders. -/
  path : String
  /-- The verb. -/
  verb : Verb
  /-- What the document says about it. -/
  raw : Members
  /-- The parameters that its path declares. -/
  pathParameters : List Json
  deriving Repr, Inhabited

namespace Operation

/-- The verb and path that stand for the operation in messages. -/
def label (operation : Operation) : String :=
  operation.verb.upper ++ " " ++ operation.path

/-- The identifier that the document gives the operation. -/
def identifier? (operation : Operation) : Option String :=
  (operation.raw.get? "operationId").bind Json.asText?

/-- The items of the array under a key. -/
def itemsAt (members : Members) (key : String) : List Json :=
  ((members.get? key).bind Json.asArray?).getD []

/-- The name and the place that a declaration gives, either of which may be missing. -/
def parameterKey (declaration : Json) : Option String × Option String :=
  (declaration.textAt? "name", declaration.textAt? "in")

/-- The declarations of the path with those of the operation put over them. -/
def parameters (operation : Operation) : List Json :=
  Keyed.putAll parameterKey operation.pathParameters (itemsAt operation.raw "parameters")

/-- The operations of one path. -/
def ofPath (path : String) (item : Members) : List Operation :=
  item.filterMap fun (key, value) =>
    match Verb.ofWord? key, value with
    | some verb, .object raw => some ⟨path, verb, raw, itemsAt item "parameters"⟩
    | _, _ => none

/-- The operations of a document. -/
def ofDocument (document : OpenApi.Document) : List Operation :=
  document.paths.flatMap fun (path, item) => ofPath path item

end Operation

end ApiSurface
