/-
This file proves what the escapes do to the text of a path. Backslashes and backticks are escaped
wherever they stand, dollar signs only before a placeholder, and whoever reads the text of a template
literal takes all of it away again.
-/

import ApiSurface.Proofs.Client.PathPiece
import ApiSurface.Proofs.TypeScript.TemplateLiteral

namespace ApiSurface.Client

open TypeScript (readParts?)

/-! ### Escapes -/

/-- A character as it is escaped wherever it stands. -/
def escapedCharacter (character : Char) : List Char :=
  if character = '\\' ∨ character = '\x60' then ['\\', character] else [character]

/-- Whether pieces start with a placeholder. -/
def startsWithPlaceholder : List PathPiece → Bool
  | .placeholder _ :: _ => true
  | _ => false

/-- A character as it is escaped before pieces: a dollar sign is, if a placeholder comes next. -/
def escapedBefore (rest : List PathPiece) (character : Char) : List Char :=
  if character = '$' ∧ startsWithPlaceholder rest = true then ['\\', '$']
  else escapedCharacter character

/-- Pieces as they are escaped. -/
def escapedPieces : List PathPiece → List PathPiece
  | [] => []
  | .character value :: rest => (escapedBefore rest value).map .character ++ escapedPieces rest
  | .placeholder name :: rest => .placeholder (name.flatMap escapedCharacter) :: escapedPieces rest

theorem mem_escapedCharacter {character inside : Char} (member : inside ∈ escapedCharacter character) :
    inside = '\\' ∨ inside = character := by
  unfold escapedCharacter at member
  split at member <;> simp_all

theorem notMem_flatMap_escapedCharacter {wanted : Char} (noBackslash : wanted ≠ '\\') {text : List Char}
    (absent : wanted ∉ text) : wanted ∉ text.flatMap escapedCharacter := by
  intro member
  obtain ⟨character, given, inside⟩ := List.mem_flatMap.mp member
  rcases mem_escapedCharacter inside with same | same
  · exact noBackslash same
  · exact absent (same ▸ given)

/-- Text without backslashes and backticks is left alone. -/
theorem flatMap_escapedCharacter_of_notMem {text : List Char} (noBackslash : '\\' ∉ text)
    (noBacktick : '\x60' ∉ text) : text.flatMap escapedCharacter = text := by
  have each (character : Char) (member : character ∈ text) :
      escapedCharacter character = [character] := by
    refine if_neg ?_
    rintro (rfl | rfl)
    · exact noBackslash member
    · exact noBacktick member
  rw [List.flatMap_congr each, List.flatMap_singleton']

/-- Escaped text starts with a brace only if the text does, or if it is empty. -/
theorem head?_escaped_append_ne {text rest : List Char} (noBrace : text.head? ≠ some '\x7b')
    (behind : rest.head? ≠ some '\x7b') :
    (text.flatMap escapedCharacter ++ rest).head? ≠ some '\x7b' := by
  cases text with
  | nil => exact behind
  | cons first others =>
    rw [List.flatMap_cons, escapedCharacter]
    split
    · simp
    · simpa using noBrace

theorem mem_escapedBefore {rest : List PathPiece} {character inside : Char}
    (member : inside ∈ escapedBefore rest character) : inside = '\\' ∨ inside = character := by
  unfold escapedBefore at member
  split at member
  · next dollar => simpa [dollar.1] using member
  · exact mem_escapedCharacter member

theorem isPlain_escapedPieces {pieces : List PathPiece} (plain : ∀ piece ∈ pieces, piece.IsPlain) :
    ∀ piece ∈ escapedPieces pieces, piece.IsPlain := by
  induction pieces with
  | nil => exact plain
  | cons first rest inductionHypothesis =>
    have further := inductionHypothesis fun other member => plain other (List.mem_cons_of_mem _ member)
    have firstPlain := plain first List.mem_cons_self
    cases first with
    | character value =>
      have noBrace {brace : Char} (noBackslash : brace ≠ '\\') (different : value ≠ brace) :
          brace ∉ escapedBefore rest value := fun member =>
        (mem_escapedBefore member).elim noBackslash fun same => different same.symm
      intro piece member
      rcases List.mem_append.mp member with before | after
      · exact isPlain_characters (noBrace (by decide) firstPlain.1) (noBrace (by decide) firstPlain.2)
          piece before
      · exact further piece after
    | placeholder name =>
      rw [escapedPieces, List.forall_mem_cons]
      exact ⟨⟨notMem_flatMap_escapedCharacter (by decide) firstPlain.1,
        notMem_flatMap_escapedCharacter (by decide) firstPlain.2⟩, further⟩

/-- The first two escapes look at each character by itself. -/
theorem escape_characters (text : List Char) :
    Text.replaceAll ['\x60'] ['\\', '\x60'] (Text.replaceAll ['\\'] ['\\', '\\'] text) =
      text.flatMap escapedCharacter := by
  rw [Text.replaceAll_singleton, Text.replaceAll_singleton, List.flatMap_assoc]
  refine List.flatMap_congr fun character _ => ?_
  by_cases backslash : character = '\\'
  · rw [backslash]
    rfl
  · by_cases backtick : character = '\x60'
    · rw [backtick]
      rfl
    · simp [escapedCharacter, backslash, backtick]

theorem head?_textOf {pieces : List PathPiece} (plain : ∀ piece ∈ pieces, piece.IsPlain) :
    (textOf pieces).head? = some '\x7b' ↔ startsWithPlaceholder pieces = true := by
  cases pieces with
  | nil => simp [textOf, startsWithPlaceholder]
  | cons first rest =>
    cases first with
    | placeholder name => simp [textOf, PathPiece.text, startsWithPlaceholder]
    | character value =>
      have noBrace := (plain _ List.mem_cons_self).1
      simpa [textOf, PathPiece.text, startsWithPlaceholder] using noBrace

/-- The third escape finds the dollar signs before a placeholder and no others. -/
theorem escape_dollars {pieces : List PathPiece} (plain : ∀ piece ∈ pieces, piece.IsPlain) :
    Text.replaceAll ['$', '\x7b'] ['\\', '$', '\x7b'] ((textOf pieces).flatMap escapedCharacter) =
      textOf (escapedPieces pieces) := by
  induction pieces with
  | nil => rfl
  | cons first rest inductionHypothesis =>
    have restPlain : ∀ piece ∈ rest, piece.IsPlain :=
      fun other member => plain other (List.mem_cons_of_mem _ member)
    have further := inductionHypothesis restPlain
    rw [textOf, List.flatMap_cons, ← textOf, List.flatMap_append]
    cases first with
    | placeholder name =>
      have namePlain := plain _ List.mem_cons_self
      have whole : (PathPiece.placeholder name).text.flatMap escapedCharacter =
          '\x7b' :: (name.flatMap escapedCharacter ++ ['\x7d']) := by
        simp [PathPiece.text, escapedCharacter]
      rw [whole, List.cons_append, Text.replaceAll_cons_of_ne (by decide), List.append_assoc,
        List.singleton_append,
        Text.replaceAll_pair_append (notMem_flatMap_escapedCharacter (by decide) namePlain.1)
          (by decide), Text.replaceAll_cons_of_ne (by decide), further]
      simp [escapedPieces, textOf, PathPiece.text]
    | character value =>
      rw [PathPiece.text, List.flatMap_singleton, escapedPieces, textOf_append, textOf_characters,
        escapedBefore]
      by_cases dollar : value = '$'
      · have same : escapedCharacter value = ['$'] := by rw [dollar]; rfl
        rw [same, List.singleton_append]
        cases start : startsWithPlaceholder rest with
        -- The brace that is found with the dollar sign is put back for the placeholder.
        | true =>
          obtain ⟨behind, whole⟩ := List.head?_eq_some_iff.mp ((head?_textOf restPlain).mpr start)
          have opened : (textOf rest).flatMap escapedCharacter =
              '\x7b' :: behind.flatMap escapedCharacter := by
            rw [whole, List.flatMap_cons]
            rfl
          have kept : Text.replaceAll ['$', '\x7b'] ['\\', '$', '\x7b']
                ('\x7b' :: behind.flatMap escapedCharacter) =
              '\x7b' :: Text.replaceAll ['$', '\x7b'] ['\\', '$', '\x7b']
                (behind.flatMap escapedCharacter) :=
            Text.replaceAll_cons_of_ne (by decide)
          rw [if_pos ⟨dollar, rfl⟩, ← further, opened, kept]
          exact Text.replaceAll_pattern_append (List.cons_ne_nil _ _) _
        | false =>
          have none : ¬ ['$', '\x7b'] <+: '$' :: (textOf rest).flatMap escapedCharacter := by
            intro found
            obtain ⟨behind, whole⟩ := (List.cons_prefix_cons.mp found).2
            have noBrace : (textOf rest).head? ≠ some '\x7b' := by
              rw [ne_eq, head?_textOf restPlain, start]
              exact Bool.false_ne_true
            have noEscaped := head?_escaped_append_ne noBrace (List.head?_nil.trans_ne (Option.some_ne_none _).symm)
            rw [List.append_nil, ← whole] at noEscaped
            exact noEscaped rfl
          rw [if_neg (by simp), Text.replaceAll_cons_of_not_prefix none, further]
          rfl
      · have absent : '$' ∉ escapedCharacter value := fun member =>
          (mem_escapedCharacter member).elim (by decide) fun same => dollar same.symm
        rw [if_neg fun both => dollar both.1, Text.replaceAll_append_of_notMem absent, further]

/-! ### Reading -/

theorem readParts?_escapedCharacter {character : Char} (noReturn : character ≠ '\r') {rest : List Char}
    (behind : character = '$' → rest.head? ≠ some '\x7b') :
    readParts? none (escapedCharacter character ++ rest) =
      (readParts? none rest).map (.character character :: ·) := by
  unfold escapedCharacter
  split
  · next special =>
    refine TypeScript.readParts?_escaped ?_ rest
    rcases special with rfl | rfl <;> decide
  · next ordinary =>
    rw [not_or] at ordinary
    by_cases dollar : character = '$'
    · rw [dollar]
      exact TypeScript.readParts?_dollar (behind dollar)
    · exact TypeScript.readParts?_ordinary ordinary.2 ordinary.1 dollar noReturn rest

/-- Escaped text is read as the text, as long as no brace meets a dollar sign at its end. -/
theorem readParts?_escaped_append {text : List Char} (noBrace : '\x7b' ∉ text) (noReturn : '\r' ∉ text)
    {rest : List Char} (behind : rest.head? ≠ some '\x7b') :
    readParts? none (text.flatMap escapedCharacter ++ rest) =
      (readParts? none rest).map (text.map .character ++ ·) := by
  induction text with
  | nil => simp
  | cons first others inductionHypothesis =>
    rw [List.mem_cons, not_or] at noBrace noReturn
    have start : others.head? ≠ some '\x7b' := fun same => noBrace.2 (List.mem_of_head? same)
    rw [List.flatMap_cons, List.append_assoc,
      readParts?_escapedCharacter (Ne.symm noReturn.1) fun _ => head?_escaped_append_ne start behind,
      inductionHypothesis noBrace.2 noReturn.2, Option.map_map]
    rfl

theorem readParts?_unbound {name : List Char} (noBrace : '\x7b' ∉ name) (noReturn : '\r' ∉ name)
    (rest : List Char) :
    readParts? none ((PathPiece.placeholder (name.flatMap escapedCharacter)).text ++ rest) =
      (readParts? none rest).map ((PathPiece.placeholder name).text.map .character ++ ·) := by
  have opening := TypeScript.readParts?_ordinary (show '\x7b' ≠ '\x60' by decide) (by decide)
    (by decide) (by decide) (name.flatMap escapedCharacter ++ '\x7d' :: rest)
  have closing := TypeScript.readParts?_ordinary (show '\x7d' ≠ '\x60' by decide) (by decide)
    (by decide) (by decide) rest
  have inside := readParts?_escaped_append noBrace noReturn
    (show ('\x7d' :: rest).head? ≠ some '\x7b' by simp)
  rw [inside, closing, Option.map_map, Option.map_map] at opening
  simpa [PathPiece.text, Function.comp_def] using opening

end ApiSurface.Client
