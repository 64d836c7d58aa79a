/-
This file writes and reads markers that say which operation a method calls. Only the first three words
of a text count as a marker.
-/

import ApiSurface.Client.Basic
import ApiSurface.Text.Blank

namespace ApiSurface.PathMarker

/-- The text of a marker. -/
def text (marker : PathMarker) : String :=
  s!"@path {marker.verb.upper} {marker.path}"

/-- Reads a marker. -/
def parse (text : String) : Except Fault PathMarker :=
  match (Text.words text.toList).map String.ofList with
  | "@path" :: verb :: rest => do
    let verb ← Verb.parse verb
    match rest with
    | path :: _ => return ⟨verb, path⟩
    | [] => .error (.invalidArgument s!"not a path marker: '{text}'")
  | _ => .error (.invalidArgument s!"not a path marker: '{text}'")

end ApiSurface.PathMarker
