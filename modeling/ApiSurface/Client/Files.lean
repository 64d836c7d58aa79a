/-
This file writes clients into files: either as one file that holds everything, or as a file for the
client, one for each of its segments, and one for the support that they share. The intermediate form of
the client may be written beside them.
-/

import ApiSurface.Client.Form
import ApiSurface.Client.Partition
import ApiSurface.Client.Templates
import ApiSurface.DocBlock.Comment
import ApiSurface.DocBlock.Printer
import ApiSurface.Paths
import ApiSurface.Template.Reader
import ApiSurface.Text.Line
import ApiSurface.TypeScript.Literal

namespace ApiSurface

/-- A file that is to be written. -/
structure GeneratedFile where
  /-- Where the file goes, below the directory of all files. -/
  path : String
  /-- What it holds. -/
  content : String
  deriving DecidableEq, Repr, Inhabited

namespace Client

/-! ### What templates are filled in with -/

/-- The verbs for which a class has a method that sends requests. -/
def transportVerbs : List Verb :=
  [.get, .post, .put, .patch, .delete, .head, .options, .trace]

/-- How the class of a client sends a request. -/
def sendingCall (verb : Verb) : String :=
  "sendRequest(this.baseUrl, this.headers, \"" ++ verb.upper ++ "\", path, options)"

/-- How the class of a segment sends a request: through its client. -/
def forwardingCall (verb : Verb) : String :=
  "this.client._" ++ verb.lower ++ "(path, options)"

/-- The methods that send requests. -/
def transportContext (call : Verb → String) : Json :=
  .array (transportVerbs.map fun verb =>
    .object [("name", .text verb.lower), ("dispatch", .text (call verb))])

/-- A method with all that its template shows. -/
def methodContext (method : Method) : Json :=
  .object [("name", .text method.name),
    ("name_literal", .text (TypeScript.stringLiteral method.name)),
    ("summary_literal", .text (TypeScript.stringLiteral (Text.firstParagraph method.doc.summary))),
    ("tags_literal", .text (Json.ofTexts method.doc.tags).compact),
    ("doc_comment", .text (DocBlock.toComment method.doc.render "  ")),
    ("signature", .text method.signature), ("return_type", .text method.returnType),
    ("body", Json.ofTexts method.body)]

/-- A segment as the class of its client shows it. -/
def segmentReference (segment : Segment) : Json :=
  .object [("group_key", .text segment.key), ("class_name", .text segment.className),
    ("field", .text segment.field)]

/-- The class of a client with some of its methods, the others being in segments. -/
def clientContext (client : Client) (split : Bool) (segments : List Segment)
    (methods : List Method) : Json :=
  .object [("title", .text client.title), ("class_name", .text client.className),
    ("base_url", .text (TypeScript.stringLiteral client.baseUrl)), ("split", .bool split),
    ("segments", .array (segments.map segmentReference)),
    ("verbs", transportContext sendingCall), ("methods", .array (methods.map methodContext))]

/-- The class of a segment. -/
def segmentContext (client : Client) (stem : String) (segment : Segment) : Json :=
  .object [("title", .text client.title), ("group_key", .text segment.key),
    ("class_name", .text segment.className), ("root_class", .text client.className),
    ("root_stem", .text stem), ("verbs", transportContext forwardingCall),
    ("methods", .array (segment.methods.map methodContext))]

/-! ### Texts -/

/-- The support that a client needs. -/
def supportText (client : Client) : Except Fault String :=
  templates.render "runtime" (.object [("title", .text client.title)])

/-- A client with all that it needs. -/
def render (client : Client) : Except Fault String := do
  let support ← client.supportText
  return support ++ (← templates.render "client" (clientContext client false [] client.methods))

/-! ### Files -/

/-- The file of a segment. -/
def segmentFile (client : Client) (stem : String) (segment : Segment) :
    Except Fault GeneratedFile := do
  let content ← templates.render "segment" (segmentContext client stem segment)
  return ⟨"segments/" ++ segment.key ++ ".ts", content⟩

/-- The files of a client whose methods are sorted into segments. -/
def splitFiles (client : Client) (stem : String) : Except Fault (List GeneratedFile) := do
  let parts ← client.partition
  let root ← templates.render "client" (clientContext client true parts.segments parts.root)
  let segments ← parts.segments.mapM (segmentFile client stem)
  let support ← client.supportText
  return ⟨stem ++ ".ts", root⟩ :: segments ++ [⟨"runtime.ts", support⟩]

/-- The ending of the file that holds the intermediate form of a client. -/
def storedEnding : String := "apiforge.json"

/-- The file that holds the intermediate form of a client. -/
def storedFile (client : Client) (stem : String) : GeneratedFile :=
  ⟨stem ++ "." ++ storedEnding, client.storedText⟩

/-- All files of a client. -/
def files (client : Client) (stem : String) (split stored : Bool) :
    Except Fault (List GeneratedFile) := do
  let sources ←
    if split then client.splitFiles stem
    else do pure [⟨stem ++ ".ts", ← client.render⟩]
  return sources ++ (if stored then [client.storedFile stem] else [])

/-- The path of the intermediate form of the client in a file. -/
def storedPath (source : String) : String :=
  Paths.withExtension source storedEnding

end Client

end ApiSurface
