/-
This file documents a method with what the document says about its operation. All texts are brought
into the form in which a documentation block reads back: descriptions on one line, and the paragraphs
of the summary one empty line apart, each of them once.
-/

import ApiSurface.Client.Basic
import ApiSurface.Json.Writer
import ApiSurface.Operation.Extraction
import ApiSurface.Text.Line

namespace ApiSurface.Client

/-! ### Texts -/

/-- A text on one line. -/
def oneLine (text : String) : String :=
  String.ofList (Text.joinedWords text.toList)

/-- The paragraphs of a text, one empty line apart, without blanks around any line. -/
def paragraphs (text : String) : String :=
  let lines := (Text.lines text.toList).map Text.trim
  let blocks := (lines.splitOnP List.isEmpty).filter fun block => !block.isEmpty
  String.ofList (['\n', '\n'].intercalate (blocks.map Text.joinLines))

/-- What the operation does: its summary and its description, or its verb and path if it has
neither. -/
def summaryOf (operation : ExtractedOperation) : String :=
  let texts := ([paragraphs operation.summary, paragraphs operation.description].filter
    fun text => !text.isEmpty).eraseDups
  match texts with
  | [] => operation.verb.upper ++ " " ++ operation.path
  | texts => "\n\n".intercalate texts

/-! ### Entries -/

/-- What a parameter is: its description, or else the name under which it is sent, and its example. -/
def argumentText (parameter : Parameter) : String :=
  let description := oneLine parameter.description
  let description := if description.isEmpty then parameter.external else description
  match parameter.example? with
  | none => description
  | some example_ =>
    let stop := if description.endsWith "." then "" else "."
    description ++ stop ++ " Example: " ++ example_.compact

/-- The entry of a parameter. -/
def argumentOf (parameter : Parameter) : DocBlock.Argument :=
  ⟨parameter.internal, argumentText parameter, some parameter.hint⟩

/-- The word for the kind of an answer. -/
def kindWord : ReturnKind → String
  | .list => "list"
  | .map => "object"
  | .unknown => "any"

/-- What the operation answers. -/
def returnsText (operation : ExtractedOperation) : String :=
  let described := oneLine operation.returnsDescription
  let described :=
    if described.isEmpty then "Decoded response body, or null when empty." else described
  kindWord operation.returnKind ++ ": " ++ described

/-- The failures of every method. -/
def failures : List DocBlock.Failure :=
  [⟨"HttpError", "If the request fails or the server answers with an error status."⟩,
    ⟨"DecodeError", "If the response body is not valid JSON."⟩]

/-- A tag without blanks around it. -/
def trimmedTag (tag : String) : String :=
  String.ofList (Text.trim tag.toList)

/-- The documentation of the method for an operation. -/
def documentation (operation : ExtractedOperation) (parameters : List Parameter) : DocBlock where
  summary := summaryOf operation
  arguments := parameters.map argumentOf
  returns := returnsText operation
  failures := failures
  tags := (operation.tags.map trimmedTag).filter fun tag => !tag.isEmpty

end ApiSurface.Client
