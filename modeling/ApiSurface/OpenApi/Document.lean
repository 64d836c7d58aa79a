/-
This file reads an API description. It must be an object and have a title; its references are
replaced and its compositions merged once, when it is read, and the order of its paths is kept.
-/

import ApiSurface.Fault
import ApiSurface.Json.Reader
import ApiSurface.OpenApi.Resolution
import ApiSurface.Paths
import ApiSurface.Text.Blank
import ApiSurface.Yaml.Reader

namespace ApiSurface.OpenApi

open Json (Members)

/-- The format of a text that describes an API. -/
inductive Format where
  | json
  | yaml
  deriving DecidableEq, Repr, Inhabited

namespace Format

/-- The name of the format. -/
def name : Format → String
  | .json => "json"
  | .yaml => "yaml"

/-- The format of a file: its extension names it, and otherwise its text does. -/
def detect (path content : String) : Format :=
  match (Paths.extension? path).map Text.folded with
  | some "json" => .json
  | some "yaml" | some "yml" => .yaml
  | _ => if (Text.trimStart content.toList).head? = some '{' then .json else .yaml

/-- Reads a text in the format. -/
def read? : Format → String → Option Json
  | .json, content => Json.parse? content
  | .yaml, content => Yaml.parse? content

end Format

/-- An API description without references. -/
structure Document where
  /-- The resolved description. -/
  root : Json
  /-- The title, without blanks around it. -/
  title : String
  /-- The address of the first server, or nothing. -/
  baseUrl : String
  deriving Repr, Inhabited

namespace Document

/-- The title of a description, without blanks around it, unless it is empty. -/
def titleOf? (value : Json) : Option String := do
  let title ← (← value.pointer? "/info/title").asText?
  let trimmed := Text.trim title.toList
  if trimmed.isEmpty then none else some (String.ofList trimmed)

/-- Resolves a description. -/
def ofJson (value : Json) : Except Fault Document :=
  match value.asObject?, titleOf? value with
  | none, _ => .error (.invalidSchema "#" "document root must be an object")
  | some _, none => .error (.missingField "info.title")
  | some _, some title =>
    let root := resolve value
    let baseUrl := ((root.pointer? "/servers/0/url").bind Json.asText?).getD ""
    .ok ⟨root, title, baseUrl⟩

/-- Reads and resolves a text in a format. -/
def parse (content : String) (format : Format) : Except Fault Document :=
  match format.read? content with
  | none => .error (.malformed format.name "the text does not follow the format")
  | some value => ofJson value

/-- The description of the API, if there is one. -/
def description? (document : Document) : Option String :=
  (document.root.pointer? "/info/description").bind Json.asText?

/-- The paths that hold an object, in the order of the document. -/
def paths (document : Document) : List (String × Members) :=
  (((document.root.get? "paths").bind Json.asObject?).getD []).filterMap fun (path, item) =>
    item.asObject?.map fun members => (path, members)

end Document

end ApiSurface.OpenApi
