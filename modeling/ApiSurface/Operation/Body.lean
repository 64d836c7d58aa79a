/-
This file decides how the body of a request is made up. Of the media types that an operation accepts,
a multipart form comes first, then a form, then the first that is JSON, then whatever comes first. A
body of JSON is given property by property if its schema is an object with known properties, and as a
whole otherwise.
-/

import ApiSurface.Name.Identifier
import ApiSurface.Operation.Parameter
import ApiSurface.Text.Blank

namespace ApiSurface

open Json (Members)

/-- The body of a request as the document declares it. -/
inductive Operation.Body where
  /-- There is none. -/
  | none
  /-- A multipart form with plain fields and files. -/
  | multipart (fields files : List Operation.Parameter)
  /-- A form. -/
  | form (fields : List Operation.Parameter)
  /-- A JSON object that is given property by property. -/
  | jsonObject (contentType : String) (fields : List Operation.Parameter)
  /-- A JSON array that is given as a whole. -/
  | jsonArray (contentType : String) (parameter : Operation.Parameter)
  /-- A JSON object that is given as a whole and may be left out. -/
  | jsonAny (contentType : String) (parameter : Operation.Parameter)
  /-- Any other content. -/
  | raw (contentType : String) (parameter : Operation.Parameter)
  deriving Repr, Inhabited

namespace Operation.Body

/-! ### Media types -/

/-- A media type without its parameters, in small letters. -/
def mediaType (written : String) : String :=
  String.ofList (Text.lower (Text.trim (written.toList.takeWhile (· != ';'))))

/-- Whether a media type is one of JSON. -/
def isJson (written : String) : Bool :=
  let media := mediaType written
  media == "application/json" || media.endsWith "+json"

/-- Whether a media type is one of text. -/
def isTextual (written : String) : Bool :=
  let media := mediaType written
  media.startsWith "text/" || isJson media || media.endsWith "xml"

/-- The schema of a media type; without one anything is allowed. -/
def mediaSchema (media : Json) : Json :=
  (media.get? "schema").getD (.object [])

/-- What is accepted under a media type. -/
def findMedia? (content : Members) (wanted : String) : Option Json :=
  (content.find? fun (written, _) => mediaType written == wanted).map Prod.snd

/-! ### JSON -/

/-- The words of the title of a schema, if it has any. -/
def titleName? (schema : Json) : Option String := do
  let name := Name.snake (← schema.textAt? "title")
  if name.isEmpty then failure else some name

/-- The name of the parameter for an array: its title, or the title of its items. -/
def arrayName (schema : Json) : String :=
  match titleName? schema with
  | some name => Name.sanitize name
  | Option.none =>
    match (schema.get? "items").bind titleName? with
    | some name => Name.sanitize (name ++ "_list")
    | Option.none => "items"

/-- Whether a schema has known properties. -/
def hasProperties (schema : Json) : Bool :=
  match schema.get? "properties" with
  | some (.object (_ :: _)) => true
  | _ => false

/-- The body of JSON with a schema. -/
def ofJson (contentType : String) (schema : Json) (description : String) (required : Bool) : Body :=
  let type := schema.textAt? "type"
  let isObject := type == Option.none || type == some "object"
  if hasProperties schema && isObject then
    .jsonObject contentType (Parameter.ofProperties schema required)
  else if type = some "array" then
    .jsonArray contentType (Parameter.ofBody (arrayName schema) schema description required)
  else if isObject then
    .jsonAny contentType (Parameter.ofBody "body" schema description false)
  else .raw contentType (Parameter.ofBody "content" schema description required)

/-! ### Bodies -/

/-- The body of any other content. It is a file unless its media type is one of text. -/
def ofOther (written : String) (schema : Json) (description : String) (required : Bool) : Body :=
  let parameter := Parameter.ofBody "content" schema description required
  .raw (mediaType written)
    { parameter with isFile := TypeScript.isBinary schema || !isTextual written }

/-- The body that accepts the given content. -/
def ofContent (content : Members) (description : String) (required : Bool) : Body :=
  match findMedia? content "multipart/form-data",
    findMedia? content "application/x-www-form-urlencoded",
    content.find? fun (written, _) => isJson written with
  | some media, _, _ =>
    let fields := Parameter.ofProperties (mediaSchema media) required
    .multipart (fields.filter fun field => !field.isFile) (fields.filter fun field => field.isFile)
  | _, some media, _ => .form (Parameter.ofProperties (mediaSchema media) required)
  | _, _, some (written, media) =>
    ofJson (mediaType written) (mediaSchema media) description required
  | _, _, _ =>
    match content with
    | [] => .none
    | (written, media) :: _ => ofOther written (mediaSchema media) description required

/-- The body of an operation. -/
def ofOperation (raw : Members) : Body :=
  match raw.get? "requestBody" with
  | Option.none => .none
  | some body =>
    match body.get? "content" with
    | some (.object content) =>
      ofContent content ((body.textAt? "description").getD "")
        (((body.get? "required").bind Json.asBool?).getD false)
    | _ => .none

end Operation.Body

end ApiSurface
