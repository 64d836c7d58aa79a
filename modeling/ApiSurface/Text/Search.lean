/-
This file finds and replaces one text inside another. Every search goes from left to right and
takes occurrences that do not overlap.
-/

namespace ApiSurface.Text

/-- What follows `lead` in a text that starts with it. -/
def dropLead? : (lead text : List Char) → Option (List Char)
  | [], text => some text
  | _ :: _, [] => none
  | first :: lead, character :: text => if first = character then dropLead? lead text else none

/-- What comes before `tail` in a text that ends with it. -/
def dropTail? (tail text : List Char) : Option (List Char) :=
  (dropLead? tail.reverse text.reverse).map List.reverse

theorem eq_append_of_dropLead? {lead text rest : List Char} (dropped : dropLead? lead text = some rest) :
    text = lead ++ rest := by
  induction lead generalizing text with
  | nil => exact Option.some.inj dropped
  | cons first lead inductionHypothesis =>
    cases text with
    | nil => cases dropped
    | cons character text =>
      unfold dropLead? at dropped
      split at dropped
      · next same => rw [same, inductionHypothesis dropped, List.cons_append]
      · cases dropped

theorem eq_append_of_dropTail? {tail text rest : List Char} (dropped : dropTail? tail text = some rest) :
    text = rest ++ tail := by
  obtain ⟨reversed, found, rfl⟩ := Option.map_eq_some_iff.1 dropped
  have := congrArg List.reverse (eq_append_of_dropLead? found)
  simpa using this

/-- Whether `pattern` occurs in a text. -/
def occursIn (pattern : List Char) : List Char → Bool
  | [] => pattern.isEmpty
  | first :: rest => pattern.isPrefixOf (first :: rest) || occursIn pattern rest

/-- The text before the first occurrence of `pattern` and the text after it. -/
def splitFirst? (pattern : List Char) : List Char → Option (List Char × List Char)
  | [] => if pattern.isEmpty then some ([], []) else none
  | first :: rest =>
    match dropLead? pattern (first :: rest) with
    | some after => some ([], after)
    | none => (splitFirst? pattern rest).map fun (before, after) => (first :: before, after)

/-- Writes `replacement` for each occurrence of `pattern`, where `skip` characters of the last
occurrence are still to be passed over. -/
def replaceFrom (pattern replacement : List Char) : Nat → List Char → List Char
  | _, [] => []
  | skip + 1, _ :: rest => replaceFrom pattern replacement skip rest
  | 0, first :: rest =>
    if pattern.isPrefixOf (first :: rest) then
      replacement ++ replaceFrom pattern replacement (pattern.length - 1) rest
    else
      first :: replaceFrom pattern replacement 0 rest

/-- Writes `replacement` for each occurrence of `pattern`, which is not empty. -/
def replaceAll (pattern replacement text : List Char) : List Char :=
  replaceFrom pattern replacement 0 text

/-- Writes a text for each character that has one and keeps the others. -/
def escapeWith (escape : Char → Option (List Char)) (text : List Char) : List Char :=
  text.flatMap fun character => (escape character).getD [character]

end ApiSurface.Text
