/-
This file holds generated clients: a class with one method for each operation. A method keeps beside
its text everything that the text was made from, so a client can be written again in another form, or
its methods called, without the document that it came from.
-/

import ApiSurface.DocBlock.Basic
import ApiSurface.Json.Value
import ApiSurface.Verb

namespace ApiSurface

/-- A name of a signature and the name under which its value is sent. -/
structure Binding where
  /-- The name in the signature. -/
  internal : String
  /-- The name under which it is sent. -/
  external : String
  deriving DecidableEq, Repr, Inhabited

/-- How the body of a request is made up of arguments. -/
inductive BodyShape where
  /-- There is none. -/
  | none
  /-- A multipart form. -/
  | multipart (fields files : List Binding)
  /-- A form. -/
  | form (fields : List Binding)
  /-- A JSON object with a member for each argument. -/
  | jsonObject (contentType : String) (fields : List Binding)
  /-- A JSON array that is one argument. -/
  | jsonArray (contentType parameter : String)
  /-- A JSON object that is one argument. -/
  | jsonAny (contentType parameter : String)
  /-- Any other content that is one argument. -/
  | raw (contentType parameter : String)
  deriving DecidableEq, Repr, Inhabited

namespace BodyShape

/-- The media type that is sent with the body. -/
def contentType? : BodyShape → Option String
  | .none => Option.none
  | .multipart _ _ => some "multipart/form-data"
  | .form _ => some "application/x-www-form-urlencoded"
  | .jsonObject contentType _ | .jsonArray contentType _ | .jsonAny contentType _
  | .raw contentType _ => some contentType

/-- The names of the arguments that the body takes. -/
def parameters : BodyShape → List String
  | .none => []
  | .multipart fields files => (fields ++ files).map Binding.internal
  | .form fields | .jsonObject _ fields => fields.map Binding.internal
  | .jsonArray _ parameter | .jsonAny _ parameter | .raw _ parameter => [parameter]

end BodyShape

/-- How a request is made up of arguments. -/
structure RequestPlan where
  /-- The verb. -/
  verb : Verb
  /-- The path, with placeholders. -/
  path : String
  /-- The arguments that must be given. -/
  required : List String
  /-- The arguments that replace placeholders. -/
  pathBindings : List Binding
  /-- The arguments in the query. -/
  queryBindings : List Binding
  /-- The body. -/
  body : BodyShape
  deriving DecidableEq, Repr, Inhabited

/-- A parameter of a method. -/
structure Parameter where
  /-- The name under which it is sent. -/
  external : String
  /-- The name in the signature. -/
  internal : String
  /-- The place in which it travels. -/
  location : Location
  /-- Its type in the signature. -/
  type : String
  /-- The schema of its values. -/
  schema : Json
  /-- The hint of its type in the documentation. -/
  hint : String
  /-- What it is, or nothing. -/
  description : String
  /-- Whether it must be given. -/
  required : Bool
  /-- An example of it. -/
  example? : Option Json
  /-- Whether it is a file. -/
  isFile : Bool
  deriving Repr, Inhabited

/-- The operation that a method calls. -/
structure PathMarker where
  /-- The verb. -/
  verb : Verb
  /-- The path, with placeholders. -/
  path : String
  deriving DecidableEq, Repr, Inhabited

/-- A method of a client. -/
structure Method where
  /-- Its name, which no other method of the client has. -/
  name : String
  /-- Its parameters, those that must be given first. -/
  parameters : List Parameter
  /-- Its documentation. -/
  doc : DocBlock
  /-- The operation that it calls. -/
  marker : Option PathMarker
  /-- How its request is made up. -/
  plan : RequestPlan
  /-- What kind of value it answers. -/
  returnKind : ReturnKind
  /-- The list of its parameters as text. -/
  signature : String
  /-- The type of its answer. -/
  returnType : String
  /-- Its statements, one a line. -/
  body : List String
  deriving Repr, Inhabited

/-- A client. -/
structure Client where
  /-- The name of its class. -/
  className : String
  /-- The title of the API. -/
  title : String
  /-- The address of the service. -/
  baseUrl : String
  /-- Its methods, in the order of the document. -/
  methods : List Method
  deriving Repr, Inhabited

/-- The parameter with a name in the signature. -/
def Method.parameter? (method : Method) (internal : String) : Option Parameter :=
  method.parameters.find? fun parameter => parameter.internal == internal

namespace Client

/-- The names of the methods. -/
def methodNames (client : Client) : List String :=
  client.methods.map Method.name

/-- The method with a name. -/
def method? (client : Client) (name : String) : Option Method :=
  client.methods.find? fun method => method.name == name

end Client

end ApiSurface
