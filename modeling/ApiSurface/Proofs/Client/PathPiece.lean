/-
This file proves what it means to replace placeholders one after the other in the whole text of a path.
A path is made up of characters and placeholders. What is put in the place of a placeholder is made up
in the same way, and as long as it holds no placeholder that is still to be replaced, the outcome is
that each placeholder is looked at once and the first argument of its name stands in its place.
-/

import ApiSurface.Client.Statement
import ApiSurface.Proofs.Text.Search

namespace ApiSurface.Client

/-! ### Pieces -/

/-- A piece of a path: a character, or a placeholder and its name. -/
inductive PathPiece where
  | character (value : Char)
  | placeholder (name : List Char)
  deriving DecidableEq, Repr

namespace PathPiece

/-- A piece as it is written. -/
def text : PathPiece → List Char
  | .character value => [value]
  | .placeholder name => '\x7b' :: name ++ ['\x7d']

/-- Whether braces stand only where they make a placeholder. -/
def IsPlain : PathPiece → Prop
  | .character value => value ≠ '\x7b' ∧ value ≠ '\x7d'
  | .placeholder name => '\x7b' ∉ name ∧ '\x7d' ∉ name

instance decidableIsPlain : (piece : PathPiece) → Decidable piece.IsPlain
  | .character _ => inferInstanceAs (Decidable (_ ∧ _))
  | .placeholder _ => inferInstanceAs (Decidable (_ ∧ _))

end PathPiece

/-- The text of pieces. -/
def textOf (pieces : List PathPiece) : List Char :=
  pieces.flatMap PathPiece.text

theorem textOf_append (first second : List PathPiece) :
    textOf (first ++ second) = textOf first ++ textOf second :=
  List.flatMap_append

theorem textOf_characters (text : List Char) : textOf (text.map .character) = text := by
  rw [textOf, List.flatMap_map]
  exact List.flatMap_singleton' text

theorem isPlain_characters {text : List Char} (noOpening : '\x7b' ∉ text) (noClosing : '\x7d' ∉ text) :
    ∀ piece ∈ text.map PathPiece.character, piece.IsPlain := by
  intro piece member
  obtain ⟨character, inside, rfl⟩ := List.mem_map.mp member
  constructor
  · rintro rfl
    exact noOpening inside
  · rintro rfl
    exact noClosing inside

/-! ### One placeholder -/

/-- Pieces with other pieces in the place of a placeholder. -/
def substitute (name : List Char) (replacement pieces : List PathPiece) : List PathPiece :=
  pieces.flatMap fun piece => if piece = .placeholder name then replacement else [piece]

theorem isPlain_substitute {name : List Char} {replacement pieces : List PathPiece}
    (replacementPlain : ∀ piece ∈ replacement, piece.IsPlain)
    (plain : ∀ piece ∈ pieces, piece.IsPlain) :
    ∀ piece ∈ substitute name replacement pieces, piece.IsPlain := by
  intro piece member
  obtain ⟨given, inside, found⟩ := List.mem_flatMap.mp member
  split at found
  · exact replacementPlain piece found
  · rw [List.mem_singleton.mp found]
    exact plain given inside

/-- Names without a closing brace, one of which is followed by such a brace where the other one is, are
the same. -/
theorem eq_of_closed {name other rest : List Char} (noClosing : '\x7d' ∉ name)
    (otherNoClosing : '\x7d' ∉ other) (found : name ++ ['\x7d'] <+: other ++ '\x7d' :: rest) :
    name = other := by
  induction name generalizing other with
  | nil =>
    cases other with
    | nil => rfl
    | cons first others =>
      have same := (List.cons_prefix_cons.mp found).1
      exact absurd (same ▸ List.mem_cons_self) otherNoClosing
  | cons first others inductionHypothesis =>
    cases other with
    | nil =>
      have same := (List.cons_prefix_cons.mp found).1
      exact absurd (same ▸ List.mem_cons_self) noClosing
    | cons next further =>
      rw [List.cons_append, List.cons_append, List.cons_prefix_cons] at found
      rw [List.mem_cons, not_or] at noClosing otherNoClosing
      rw [found.1, inductionHypothesis noClosing.2 otherNoClosing.2 found.2]

/-- Replacing a placeholder in the text of pieces is replacing it among the pieces. -/
theorem replaceAll_textOf {pieces : List PathPiece} (plain : ∀ piece ∈ pieces, piece.IsPlain)
    {external : String} (noClosing : '\x7d' ∉ external.toList) (replacement : List PathPiece) :
    Text.replaceAll (placeholder external) (textOf replacement) (textOf pieces) =
      textOf (substitute external.toList replacement pieces) := by
  induction pieces with
  | nil => rfl
  | cons piece rest inductionHypothesis =>
    have further := inductionHypothesis fun other member => plain other (List.mem_cons_of_mem _ member)
    have piecePlain := plain piece List.mem_cons_self
    rw [substitute, List.flatMap_cons, textOf_append, ← substitute, ← further]
    cases piece with
    | character value =>
      rw [if_neg PathPiece.noConfusion]
      exact Text.replaceAll_cons_of_ne piecePlain.1
    | placeholder name =>
      by_cases same : name = external.toList
      · rw [if_pos (congrArg _ same), same]
        exact Text.replaceAll_pattern_append (List.cons_ne_nil _ _) _
      -- No occurrence starts at the brace of another name, and there is no brace inside of it.
      · have whole : textOf (.placeholder name :: rest) =
            '\x7b' :: (name ++ '\x7d' :: textOf rest) := by
          simp [textOf, PathPiece.text]
        have noStart : ¬ placeholder external <+: '\x7b' :: (name ++ '\x7d' :: textOf rest) := by
          intro found
          rw [placeholder, List.cons_append, List.cons_prefix_cons] at found
          exact same (eq_of_closed noClosing piecePlain.2 found.2).symm
        have noOpening : '\x7b' ∉ name ++ ['\x7d'] := by simpa using piecePlain.1
        rw [if_neg fun equal => same (PathPiece.placeholder.inj equal), whole,
          Text.replaceAll_cons_of_not_prefix noStart, List.append_cons]
        refine (congrArg _ (Text.replaceAll_append_of_notMem noOpening (textOf rest))).trans ?_
        simp [textOf, PathPiece.text, placeholder]

/-! ### All placeholders -/

/-- Pieces with the placeholders replaced one after the other. -/
def fill (replacement : Binding → List PathPiece) (bindings : List Binding)
    (pieces : List PathPiece) : List PathPiece :=
  bindings.foldl
    (fun pieces binding => substitute binding.external.toList (replacement binding) pieces) pieces

/-- What stands in the place of a piece when every placeholder is looked at once: the first argument of
its name, if there is one. -/
def filledPiece (replacement : Binding → List PathPiece) (bindings : List Binding) :
    PathPiece → List PathPiece
  | .character value => [.character value]
  | .placeholder name =>
    match bindings.find? fun binding => binding.external.toList = name with
    | some binding => replacement binding
    | none => [.placeholder name]

section

variable {replacement : Binding → List PathPiece} {bindings : List Binding}

/-- Replacing one placeholder after the other in the text of pieces is doing so among the pieces. -/
theorem foldl_replaceAll_textOf (noClosing : ∀ binding ∈ bindings, '\x7d' ∉ binding.external.toList)
    (replacementPlain : ∀ binding ∈ bindings, ∀ piece ∈ replacement binding, piece.IsPlain)
    {pieces : List PathPiece} (plain : ∀ piece ∈ pieces, piece.IsPlain) :
    bindings.foldl
        (fun text binding =>
          Text.replaceAll (placeholder binding.external) (textOf (replacement binding)) text)
        (textOf pieces) =
      textOf (fill replacement bindings pieces) := by
  induction bindings generalizing pieces with
  | nil => rfl
  | cons first rest inductionHypothesis =>
    rw [List.foldl_cons, replaceAll_textOf plain (noClosing first List.mem_cons_self)]
    exact inductionHypothesis
      (fun binding member => noClosing binding (List.mem_cons_of_mem _ member))
      (fun binding member => replacementPlain binding (List.mem_cons_of_mem _ member))
      (isPlain_substitute (replacementPlain first List.mem_cons_self) plain)

theorem filledPiece_of_notMem {piece : PathPiece}
    (settled : ∀ binding ∈ bindings, piece ≠ .placeholder binding.external.toList) :
    filledPiece replacement bindings piece = [piece] := by
  cases piece with
  | character value => rfl
  | placeholder name =>
    have none : (bindings.find? fun binding => binding.external.toList = name) = none :=
      List.find?_eq_none.mpr fun binding member same =>
        settled binding member (congrArg _ (of_decide_eq_true same).symm)
    rw [filledPiece, none]

/-- If nothing that is put in is a placeholder to be replaced, replacing one placeholder after the other
is looking at each piece once. -/
theorem fill_eq_flatMap
    (settled : ∀ binding ∈ bindings, ∀ piece ∈ replacement binding, ∀ other ∈ bindings,
      piece ≠ .placeholder other.external.toList)
    (pieces : List PathPiece) :
    fill replacement bindings pieces = pieces.flatMap (filledPiece replacement bindings) := by
  induction bindings generalizing pieces with
  | nil =>
    have keep (piece : PathPiece) : filledPiece replacement [] piece = [piece] :=
      filledPiece_of_notMem fun binding member => absurd member List.not_mem_nil
    rw [funext keep, List.flatMap_singleton']
    rfl
  | cons first rest inductionHypothesis =>
    have further := inductionHypothesis fun binding member piece inside other later =>
      settled binding (List.mem_cons_of_mem _ member) piece inside other (List.mem_cons_of_mem _ later)
    rw [fill, List.foldl_cons, ← fill, further, substitute, List.flatMap_assoc]
    refine congrArg (pieces.flatMap ·) (funext fun piece => ?_)
    by_cases same : piece = .placeholder first.external.toList
    -- What is put in is looked at again by all that is replaced later, and stays.
    · have kept : (replacement first).flatMap (filledPiece replacement rest) = replacement first := by
        have each (inner : PathPiece) (inside : inner ∈ replacement first) :
            filledPiece replacement rest inner = [inner] :=
          filledPiece_of_notMem fun other member =>
            settled first List.mem_cons_self inner inside other (List.mem_cons_of_mem _ member)
        rw [List.flatMap_congr each, List.flatMap_singleton']
      have found : (first :: rest).find? (fun binding => binding.external.toList = first.external.toList) =
          some first := List.find?_cons_of_pos (decide_eq_true rfl)
      rw [if_pos same, kept, same, filledPiece, found]
    · rw [if_neg same, List.flatMap_singleton]
      cases piece with
      | character value => rfl
      | placeholder name =>
        have different : ¬ first.external.toList = name := fun equal => same (congrArg _ equal.symm)
        rw [filledPiece, filledPiece, List.find?_cons_of_neg (by simpa using different)]

end

end ApiSurface.Client
