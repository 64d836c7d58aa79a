/-
This file reads a type of TypeScript, as far as types go that schemas stand for: names with arguments,
string literals, arrays, object types and unions. Brackets make an array of the operand before them
alone, and bars join all operands between two brackets to one union. String literals are read as texts
of JSON, which the language takes as literals of its own. Line breaks are not read, so what is read is
on one line but for what literals hold.

A machine takes one token after the other and keeps, for each bracket that is open, what was read in
front of it. A text is cut into tokens first. Two texts can be cut one by one unless a word ends where
the other one goes on with it.
-/

import ApiSurface.Proofs.Json.Token
import ApiSurface.TypeScript.Literal

namespace ApiSurface.TypeScript

/-! ### Forms -/

/-- What names a field of an object type. -/
structure FieldName where
  /-- Its name. -/
  name : String
  /-- Whether a value may lack the field. -/
  isOptional : Bool
  deriving DecidableEq, Repr, Inhabited

/-- A type as it is read. -/
inductive TypeForm where
  /-- A type that has a name. -/
  | word (name : String)
  /-- The type of one text. -/
  | literal (text : String)
  /-- The type of arrays, whose items have a type. -/
  | list (item : TypeForm)
  /-- The type that a name stands for with arguments. -/
  | applied (head : String) (arguments : List TypeForm)
  /-- An object type. -/
  | object (fields : List (FieldName × TypeForm))
  /-- A union of other than one type. -/
  | union (alternatives : List TypeForm)
  deriving Repr, Inhabited

namespace TypeForm

/-- The union of types; one type alone stands for itself. -/
def unionOf : List TypeForm → TypeForm
  | [alternative] => alternative
  | alternatives => .union alternatives

/-- What a name stands for with arguments: that of arrays with an item type is the type of arrays. -/
def apply (head : String) : List TypeForm → TypeForm
  | [item] => if head = "Array" then .list item else .applied head [item]
  | arguments => .applied head arguments

/-- The type of objects about whose members nothing is known. -/
def record : TypeForm :=
  .applied "Record" [.word "string", .word "unknown"]

/-- The type of objects with some fields. -/
def ofFields : List (FieldName × TypeForm) → TypeForm
  | [] => record
  | fields => .object fields

end TypeForm

/-! ### Tokens -/

/-- A token of a type. -/
inductive TypeToken where
  /-- A name. -/
  | word (name : String)
  /-- The text of a string literal. -/
  | literal (text : String)
  /-- A bracket or another mark. -/
  | mark (character : Char)
  deriving DecidableEq, Repr, Inhabited

/-- The marks of types. -/
def typeMarks : List Char :=
  ['<', '>', '[', ']', '\x7b', '\x7d', '|', ',', ';', ':', '?']

/-- Whether a character is a mark, or a blank that may stand beside one. -/
def isMarkOrBlank (character : Char) : Bool :=
  character == ' ' || typeMarks.contains character

/-- Reads the token that starts with the given character and gives what follows as well. -/
def readTypeToken? (first : Char) (rest : List Char) : Option (TypeToken × List Char) :=
  if first = '"' then
    (Json.readQuoted rest).map fun (text, after) => (.literal (String.ofList text), after)
  else if startsProperty first then
    some (.word (String.ofList (first :: rest.takeWhile continuesProperty)),
      rest.dropWhile continuesProperty)
  else if typeMarks.contains first then some (.mark first, rest)
  else none

theorem length_readTypeToken?_le {first : Char} {rest : List Char} {token : TypeToken}
    {after : List Char} (found : readTypeToken? first rest = some (token, after)) :
    after.length ≤ rest.length := by
  unfold readTypeToken? at found
  split_ifs at found
  · obtain ⟨⟨text, behind⟩, read, same⟩ := Option.map_eq_some_iff.mp found
    obtain ⟨-, rfl⟩ := Prod.mk.inj same
    exact Nat.le_of_lt (Json.length_readQuoted_lt read)
  · obtain ⟨-, rfl⟩ := Prod.mk.inj (Option.some.inj found)
    exact List.length_dropWhile_le _ _
  · obtain ⟨-, rfl⟩ := Prod.mk.inj (Option.some.inj found)
    exact Nat.le_refl _

/-- The tokens of a type, between which blanks may stand. -/
def typeTokens? (text : List Char) : Option (List TypeToken) :=
  match text with
  | [] => some []
  | first :: rest =>
    if first = ' ' then typeTokens? rest
    else
      match found : readTypeToken? first rest with
      | none => none
      | some (token, after) =>
        have : after.length ≤ rest.length := length_readTypeToken?_le found
        (typeTokens? after).map (token :: ·)
termination_by text.length
decreasing_by all_goals simp_wf <;> omega

theorem typeTokens?_of_read {first : Char} {rest : List Char} {token : TypeToken} {after : List Char}
    (solid : first ≠ ' ') (found : readTypeToken? first rest = some (token, after)) :
    typeTokens? (first :: rest) = (typeTokens? after).map (token :: ·) := by
  rw [typeTokens?, if_neg solid]
  split
  · next none =>
    rw [none] at found
    cases found
  · next read =>
    rw [read] at found
    obtain ⟨rfl, rfl⟩ := Prod.mk.inj (Option.some.inj found)
    rfl

/-! ### Cuts -/

/-- A text does not end with a word that another one goes on with. -/
def IsApart (text rest : List Char) : Prop :=
  ∀ last ∈ text.getLast?, ∀ first ∈ rest.head?,
    continuesProperty last = false ∨ continuesProperty first = false

/-- A text has certain tokens in front of those of what follows it. -/
def CutsInto (text : List Char) (own : List TypeToken) : Prop :=
  ∀ rest tokens, IsApart text rest → typeTokens? rest = some tokens →
    typeTokens? (text ++ rest) = some (own ++ tokens)

theorem CutsInto.append {text other : List Char} {own others : List TypeToken}
    (cuts : CutsInto text own) (cutsOther : CutsInto other others) (apart : IsApart text other) :
    CutsInto (text ++ other) (own ++ others) := by
  intro rest tokens apartRest cut
  rw [List.append_assoc, List.append_assoc]
  cases other with
  | nil =>
    rw [List.append_nil] at apartRest
    refine cuts _ _ apartRest (cutsOther rest tokens ?_ cut)
    exact fun _ absent => absurd absent (by simp)
  | cons first further =>
    refine cuts _ _ apart (cutsOther rest tokens ?_ cut)
    rwa [IsApart, List.getLast?_append_cons] at apartRest

/-- The tokens of marks with blanks between them. -/
def marksOf (text : List Char) : List TypeToken :=
  (text.filter fun character => character != ' ').map .mark

theorem of_isMarkOrBlank {character : Char} (mark : isMarkOrBlank character = true) :
    continuesProperty character = false ∧ (character ≠ ' ' → character ≠ '"' ∧
      startsProperty character = false ∧ typeMarks.contains character = true) := by
  have plain : (' ' :: typeMarks).all (fun mark => !continuesProperty mark && mark != '"' &&
      !startsProperty mark) = true := by decide
  have inside : character ∈ ' ' :: typeMarks := by
    simpa [isMarkOrBlank] using mark
  have whole := List.all_eq_true.mp plain character inside
  simp only [Bool.and_eq_true, Bool.not_eq_true', bne_iff_ne] at whole
  exact ⟨whole.1.1, fun solid => ⟨whole.1.2, whole.2, by simpa [isMarkOrBlank, solid] using mark⟩⟩

/-- Marks may stand in front of anything. -/
theorem cutsInto_marks {text : List Char} (marks : text.all isMarkOrBlank = true) :
    CutsInto text (marksOf text) := by
  rintro rest tokens - cut
  induction text with
  | nil => exact cut
  | cons first others inductionHypothesis =>
    rw [List.all_cons, Bool.and_eq_true] at marks
    obtain ⟨here, further⟩ := marks
    have behind := inductionHypothesis further
    by_cases blank : first = ' '
    · rw [blank, List.cons_append, typeTokens?, if_pos rfl, behind]
      rfl
    · obtain ⟨noQuote, noWord, mark⟩ := (of_isMarkOrBlank here).2 blank
      have read : readTypeToken? first (others ++ rest) = some (.mark first, others ++ rest) := by
        rw [readTypeToken?, if_neg noQuote, noWord, if_neg Bool.false_ne_true, if_pos mark]
      rw [List.cons_append, typeTokens?_of_read blank read, behind]
      simp [marksOf, blank]

/-- Marks may stand between any two texts. -/
theorem CutsInto.marks {text other : List Char} {own others : List TypeToken}
    (cuts : CutsInto text own) (between : List Char) (marks : between.all isMarkOrBlank = true)
    (filled : between ≠ []) (cutsOther : CutsInto other others) :
    CutsInto (text ++ (between ++ other)) (own ++ (marksOf between ++ others)) := by
  have stops : ∀ character ∈ between, continuesProperty character = false :=
    fun character inside => (of_isMarkOrBlank (List.all_eq_true.mp marks character inside)).1
  refine cuts.append ((cutsInto_marks marks).append cutsOther ?_) ?_
  · exact fun last member _ _ => .inl (stops last (List.mem_of_getLast? member))
  · refine fun _ _ first member => .inr (stops first ?_)
    rw [List.head?_append_of_ne_nil between filled] at member
    exact List.mem_of_mem_head? member

theorem cutsInto_nil : CutsInto [] [] :=
  fun _ _ _ cut => cut

theorem continuesProperty_of_startsProperty {character : Char}
    (starts : startsProperty character = true) : continuesProperty character = true := by
  simp only [startsProperty, continuesProperty, Text.startsName, Text.continuesName,
    Text.isAlphanumeric, Bool.or_eq_true] at starts ⊢
  exact starts.imp_left (Or.imp_left Or.inl)

theorem cutsInto_word {first : Char} {others : List Char} (starts : startsProperty first = true)
    (continued : others.all continuesProperty = true) :
    CutsInto (first :: others) [.word (String.ofList (first :: others))] := by
  intro rest tokens apart cut
  have solid : first ≠ ' ' ∧ first ≠ '"' := by
    constructor <;> rintro rfl <;> cases starts
  have continues := List.all_eq_true.mp continued
  have all : ∀ character ∈ first :: others, continuesProperty character = true :=
    List.forall_mem_cons.mpr ⟨continuesProperty_of_startsProperty starts, continues⟩
  have stops : ∀ next ∈ rest.head?, continuesProperty next = false := by
    intro next member
    have last := List.getLast?_eq_some_getLast (List.cons_ne_nil first others)
    refine (apart _ last next member).resolve_left ?_
    simp [all _ (List.getLast_mem _)]
  have read : readTypeToken? first (others ++ rest) =
      some (.word (String.ofList (first :: others)), rest) := by
    rw [readTypeToken?, if_neg solid.2, if_pos starts, Text.takeWhile_append_of_stop continues stops,
      Text.dropWhile_append_of_stop continues stops]
  rw [List.cons_append, typeTokens?_of_read solid.1 read, cut]
  rfl

theorem cutsInto_literal (text : String) : CutsInto (stringLiteral text).toList [.literal text] := by
  intro rest tokens _ cut
  have whole : (stringLiteral text).toList ++ rest =
      '"' :: (text.toList.flatMap Json.escaped ++ '"' :: rest) := by
    rw [stringLiteral, Json.compact, String.toList_ofList, Json.compactChars, Json.quoted]
    simp
  have read : readTypeToken? '"' (text.toList.flatMap Json.escaped ++ '"' :: rest) =
      some (.literal text, rest) := by
    rw [readTypeToken?, if_pos rfl, Json.readQuoted_flatMap_escaped, Option.map_some]
    dsimp only
    rw [String.ofList_toList]
  rw [whole, typeTokens?_of_read (by decide) read, cut]
  rfl

/-! ### The machine -/

/-- A bracket that is open, with what was read of it and in front of it, each in reverse order. -/
inductive TypeFrame where
  /-- The arguments of a name. -/
  | arguments (head : String) (read before : List TypeForm)
  /-- The fields of an object type, of which one is named and its type is open. -/
  | fields (name : FieldName) (read : List (FieldName × TypeForm)) (before : List TypeForm)
  deriving Repr, Inhabited

/-- What the machine is at; the alternatives of the innermost union are in reverse order. -/
inductive TypeReader where
  /-- An operand must come. -/
  | operand (before : List TypeForm) (frames : List TypeFrame)
  /-- An operand came. -/
  | behind (alternatives : List TypeForm) (frames : List TypeFrame)
  /-- A bracket was opened behind an operand and must be closed. -/
  | bracket (item : TypeForm) (before : List TypeForm) (frames : List TypeFrame)
  /-- A field or the end of an object type must come. -/
  | field (read : List (FieldName × TypeForm)) (before : List TypeForm) (frames : List TypeFrame)
  /-- The name of a field came. -/
  | named (name : String) (read : List (FieldName × TypeForm)) (before : List TypeForm)
    (frames : List TypeFrame)
  /-- The question mark of an optional field came. -/
  | optional (name : String) (read : List (FieldName × TypeForm)) (before : List TypeForm)
    (frames : List TypeFrame)
  deriving Repr, Inhabited

namespace TypeReader

open TypeForm (unionOf)

/-- Takes one token. -/
def step : TypeReader → TypeToken → Option TypeReader
  | .operand before frames, .word name => some (.behind (.word name :: before) frames)
  | .operand before frames, .literal text => some (.behind (.literal text :: before) frames)
  | .operand before frames, .mark '\x7b' => some (.field [] before frames)
  | .behind alternatives frames, .mark '|' => some (.operand alternatives frames)
  | .behind (item :: before) frames, .mark '[' => some (.bracket item before frames)
  | .bracket item before frames, .mark ']' => some (.behind (.list item :: before) frames)
  | .behind (.word head :: before) frames, .mark '<' =>
    some (.operand [] (.arguments head [] before :: frames))
  | .behind alternatives (.arguments head read before :: frames), .mark ',' =>
    some (.operand [] (.arguments head (unionOf alternatives.reverse :: read) before :: frames))
  | .behind alternatives (.arguments head read before :: frames), .mark '>' =>
    some (.behind (.apply head (unionOf alternatives.reverse :: read).reverse :: before) frames)
  | .behind alternatives (.fields name read before :: frames), .mark ';' =>
    some (.field ((name, unionOf alternatives.reverse) :: read) before frames)
  | .behind alternatives (.fields name read before :: frames), .mark '\x7d' =>
    some (.behind (.object ((name, unionOf alternatives.reverse) :: read).reverse :: before) frames)
  | .field read before frames, .mark '\x7d' =>
    some (.behind (.object read.reverse :: before) frames)
  | .field read before frames, .word name => some (.named name read before frames)
  | .field read before frames, .literal name => some (.named name read before frames)
  | .named name read before frames, .mark '?' => some (.optional name read before frames)
  | .named name read before frames, .mark ':' =>
    some (.operand [] (.fields ⟨name, false⟩ read before :: frames))
  | .optional name read before frames, .mark ':' =>
    some (.operand [] (.fields ⟨name, true⟩ read before :: frames))
  | _, _ => none

/-- Takes tokens until none is left or one is refused. -/
def run (reader : TypeReader) : List TypeToken → Option TypeReader
  | [] => some reader
  | token :: rest => (reader.step token).bind fun next => next.run rest

theorem run_cons {reader : TypeReader} (next : TypeReader) {token : TypeToken}
    (taken : reader.step token = some next) (rest : List TypeToken) :
    reader.run (token :: rest) = next.run rest := by
  rw [run, taken, Option.bind_some]

end TypeReader

/-- The type that a text writes, if it writes one. -/
def readType? (text : String) : Option TypeForm := do
  match ← (TypeReader.operand [] []).run (← typeTokens? text.toList) with
  | .behind alternatives [] => some (.unionOf alternatives.reverse)
  | _ => none

end ApiSurface.TypeScript
