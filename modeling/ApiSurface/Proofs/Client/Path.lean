/-
This file proves that the path that a method writes and the path of a request say the same. Both are
made by replacing placeholders in a text, one after the other; but nothing that is put in can be taken
for a placeholder, since a hole holds parentheses and a written argument no brace.
-/

import ApiSurface.Proofs.Client.Coherence
import ApiSurface.Proofs.Client.PathEscape
import ApiSurface.Proofs.Http.Request
import ApiSurface.Proofs.Text.Percent

namespace ApiSurface.Client

open Json (Members)
open TypeScript (TemplatePart readParts? readTemplate? isPlainCode)

/-! ### Parts -/

/-- The code that writes an argument so that it can be a step of a path. -/
def holeCode (internal : String) : List Char :=
  ("encodeURIComponent(String(" ++ internal ++ "))").toList

/-- A part of a path that is filled: a character, or the argument that stands there. -/
inductive PathPart where
  | character (value : Char)
  | argument (internal : String)
  deriving DecidableEq, Repr

namespace PathPart

/-- A part in a template literal. -/
def template : PathPart → TemplatePart
  | .character value => .character value
  | .argument internal => .hole (holeCode internal)

/-- A part in the path of a request. -/
def written (arguments : Members) : PathPart → List Char
  | .character value => [value]
  | .argument internal => RequestPlan.encoded arguments internal

end PathPart

/-- The parts of a piece: a placeholder is the first argument of its name, and text if there is none. -/
def PathPiece.parts (bindings : List Binding) : PathPiece → List PathPart
  | .character value => [.character value]
  | .placeholder name =>
    match bindings.find? fun binding => binding.external.toList = name with
    | some binding => [.argument binding.internal]
    | none => (PathPiece.placeholder name).text.map .character

/-- The parts of a path. -/
def partsOf (bindings : List Binding) (pieces : List PathPiece) : List PathPart :=
  pieces.flatMap (PathPiece.parts bindings)

/-- Both paths of a plan have the same parts: the one of the template literal, and that of each request
that is made. -/
structure HasParts (plan : RequestPlan) (parts : List PathPart) : Prop where
  /-- The template literal is complete and has these parts. -/
  template : readTemplate? (pathExpression plan).toList = some (parts.map PathPart.template)
  /-- All arguments among the parts are given. -/
  given {arguments : Members} {request : HttpRequest} (made : plan.request arguments = .ok request)
    {internal : String} (member : .argument internal ∈ parts) :
    (present? arguments internal).isSome = true
  /-- The path of a request is made up of these parts. -/
  path {arguments : Members} {request : HttpRequest} (made : plan.request arguments = .ok request) :
    request.path.toList = parts.flatMap (PathPart.written arguments)

/-- A character that means something in the text of a template literal or in a hole. -/
def isMark (character : Char) : Bool :=
  ['\x7b', '\x7d', '(', ')', '\\', '\x60', '$'].contains character

/-- Whether a name in the signature is plain code, as identifiers are, and the name under which it is
sent holds no mark. -/
def IsPathBinding (binding : Binding) : Prop :=
  (∀ character ∈ binding.internal.toList, isPlainCode character = true) ∧
    ∀ character ∈ binding.external.toList, isMark character = false

instance decidableIsPathBinding (binding : Binding) : Decidable (IsPathBinding binding) :=
  decidable_of_iff
    (binding.internal.toList.all isPlainCode = true ∧
      binding.external.toList.all (fun character => !isMark character) = true) <| by
    simp only [IsPathBinding, List.all_eq_true, Bool.not_eq_true']

/-! ### The path of a request -/

section

variable {bindings : List Binding}

theorem IsPathBinding.notMem_external {binding : Binding} (standing : IsPathBinding binding)
    {character : Char} (mark : isMark character = true) : character ∉ binding.external.toList := by
  intro member
  rw [standing.2 character member] at mark
  cases mark

theorem notMem_encoded {arguments : Members} {internal : String} {character : Char}
    (noPercent : character ≠ '%') (reserved : Text.isUnreserved character = false) :
    character ∉ RequestPlan.encoded arguments internal := by
  intro member
  rw [RequestPlan.encoded] at member
  cases found : present? arguments internal with
  | none => simp [found] at member
  | some value =>
    rw [found] at member
    rcases Text.mem_percentEncode member with percent | unreserved
    · exact noPercent percent
    · rw [reserved] at unreserved
      cases unreserved

/-- The pieces of an argument as it stands in a path. -/
def encodedPieces (arguments : Members) (binding : Binding) : List PathPiece :=
  (RequestPlan.encoded arguments binding.internal).map .character

/-- Filling the placeholders of a path one after the other fills each of its parts. -/
theorem foldl_encoded_textOf (standing : ∀ binding ∈ bindings, IsPathBinding binding)
    {pieces : List PathPiece} (plain : ∀ piece ∈ pieces, piece.IsPlain) (arguments : Members) :
    bindings.foldl
        (fun path binding =>
          Text.replaceAll (placeholder binding.external)
            (RequestPlan.encoded arguments binding.internal) path)
        (textOf pieces) =
      (partsOf bindings pieces).flatMap (PathPart.written arguments) := by
  have encodedPlain (binding : Binding) : ∀ piece ∈ encodedPieces arguments binding, piece.IsPlain :=
    isPlain_characters (notMem_encoded (by decide) (by decide)) (notMem_encoded (by decide) (by decide))
  have noClosing (binding : Binding) (member : binding ∈ bindings) : '\x7d' ∉ binding.external.toList :=
    (standing binding member).notMem_external (by decide)
  have settled : ∀ binding ∈ bindings, ∀ piece ∈ encodedPieces arguments binding, ∀ other ∈ bindings,
      piece ≠ .placeholder other.external.toList := by
    intro binding _ piece inside other _ same
    obtain ⟨character, -, rfl⟩ := List.mem_map.mp inside
    cases same
  have step := foldl_replaceAll_textOf noClosing (fun binding _ => encodedPlain binding) plain
  simp only [encodedPieces, textOf_characters] at step
  rw [step, fill_eq_flatMap settled, textOf, partsOf, List.flatMap_assoc, List.flatMap_assoc]
  refine List.flatMap_congr fun piece _ => ?_
  cases piece with
  | character value => rfl
  | placeholder name =>
    rw [filledPiece, PathPiece.parts]
    cases bindings.find? fun binding => binding.external.toList = name with
    | some binding =>
      rw [List.flatMap_singleton]
      exact textOf_characters _
    | none =>
      rw [List.flatMap_singleton, List.flatMap_map]
      exact (List.flatMap_singleton' _).symm

end

/-! ### The template literal -/

section

variable {bindings : List Binding}

/-- The pieces of the hole of an argument. Its braces are those of a placeholder. -/
def holePieces (binding : Binding) : List PathPiece :=
  [.character '$', .placeholder (holeCode binding.internal)]

theorem hole_eq (internal : String) :
    hole internal = '$' :: '\x7b' :: holeCode internal ++ ['\x7d'] := by
  have opening : "$\x7bencodeURIComponent(String(".toList =
      '$' :: '\x7b' :: "encodeURIComponent(String(".toList := by decide +kernel
  have closing : "))\x7d".toList = "))".toList ++ ['\x7d'] := by decide +kernel
  unfold hole holeCode
  rw [opening, closing, String.toList_append, String.toList_append]
  simp only [List.cons_append, List.append_assoc]

theorem isPlainCode_holeCode {binding : Binding} (standing : IsPathBinding binding) :
    ∀ character ∈ holeCode binding.internal, isPlainCode character = true := by
  have before : "encodeURIComponent(String(".toList.all isPlainCode = true := by decide +kernel
  have after : "))".toList.all isPlainCode = true := by decide +kernel
  rw [holeCode, String.toList_append, String.toList_append]
  intro character member
  rcases List.mem_append.mp member with member | behind
  · exact (List.mem_append.mp member).elim (List.all_eq_true.mp before character)
      (standing.1 character)
  · exact List.all_eq_true.mp after character behind

theorem parenthesis_mem_holeCode (internal : String) : '(' ∈ holeCode internal := by
  have before : '(' ∈ "encodeURIComponent(String(".toList := by decide +kernel
  rw [holeCode, String.toList_append, String.toList_append]
  exact List.mem_append_left _ (List.mem_append_left _ before)

theorem textOf_holePieces (binding : Binding) : textOf (holePieces binding) = hole binding.internal := by
  rw [hole_eq, holePieces]
  simp [textOf, PathPiece.text]

/-- Escaping a name makes or breaks no placeholder that is bound. -/
theorem find?_escaped (standing : ∀ binding ∈ bindings, IsPathBinding binding) (name : List Char) :
    (bindings.find? fun binding => binding.external.toList = name.flatMap escapedCharacter) =
      bindings.find? fun binding => binding.external.toList = name := by
  refine List.find?_congr fun binding member => ?_
  have noBackslash : '\\' ∉ binding.external.toList :=
    (standing binding member).notMem_external (by decide)
  have noBacktick : '\x60' ∉ binding.external.toList :=
    (standing binding member).notMem_external (by decide)
  refine decide_eq_decide.mpr ⟨fun same => ?_, fun same => ?_⟩
  -- A name that the escapes change has a backslash afterwards, and no name that is sent has one.
  · have absent {special : Char} (escaped : '\\' ∈ escapedCharacter special) : special ∉ name := by
      intro inside
      rw [same] at noBackslash
      exact noBackslash (List.mem_flatMap.mpr ⟨special, inside, escaped⟩)
    rw [same, flatMap_escapedCharacter_of_notMem (absent (by decide)) (absent (by decide))]
  · rw [← same, flatMap_escapedCharacter_of_notMem noBackslash noBacktick]

/-- The text between the backticks. -/
def literalText (bindings : List Binding) (pieces : List PathPiece) : List Char :=
  textOf ((escapedPieces pieces).flatMap (filledPiece holePieces bindings))

theorem pathExpression_eq {plan : RequestPlan} {pieces : List PathPiece}
    (path : plan.path.toList = textOf pieces) (plain : ∀ piece ∈ pieces, piece.IsPlain)
    (standing : ∀ binding ∈ plan.pathBindings, IsPathBinding binding) :
    (pathExpression plan).toList = '\x60' :: (literalText plan.pathBindings pieces ++ ['\x60']) := by
  have noClosing (binding : Binding) (member : binding ∈ plan.pathBindings) :
      '\x7d' ∉ binding.external.toList := (standing binding member).notMem_external (by decide)
  have codePlain (binding : Binding) (member : binding ∈ plan.pathBindings) :=
    isPlainCode_holeCode (standing binding member)
  have holesPlain : ∀ binding ∈ plan.pathBindings, ∀ piece ∈ holePieces binding, piece.IsPlain := by
    intro binding member
    have noBrace {brace : Char} (notPlain : isPlainCode brace = false) : brace ∉ holeCode binding.internal := by
      intro inside
      rw [codePlain binding member brace inside] at notPlain
      cases notPlain
    simp only [holePieces, List.forall_mem_cons, List.not_mem_nil, IsEmpty.forall_iff, implies_true,
      and_true]
    exact ⟨by decide, noBrace (by decide), noBrace (by decide)⟩
  have settled : ∀ binding ∈ plan.pathBindings, ∀ piece ∈ holePieces binding,
      ∀ other ∈ plan.pathBindings, piece ≠ .placeholder other.external.toList := by
    intro binding _ piece inside other member same
    have noParenthesis : '(' ∉ other.external.toList :=
      (standing other member).notMem_external (by decide)
    rcases List.mem_cons.mp inside with character | placed
    · rw [same] at character
      cases character
    · rw [same, List.mem_singleton, PathPiece.placeholder.injEq] at placed
      rw [placed] at noParenthesis
      exact noParenthesis (parenthesis_mem_holeCode _)
  have step := foldl_replaceAll_textOf noClosing holesPlain (isPlain_escapedPieces plain)
  simp only [textOf_holePieces] at step
  rw [pathExpression, escapedPath, path, escape_characters, escape_dollars plain, step,
    fill_eq_flatMap settled, ← literalText]
  exact String.toList_ofList

theorem literalText_character (value : Char) (rest : List PathPiece) :
    literalText bindings (.character value :: rest) =
      escapedBefore rest value ++ literalText bindings rest := by
  rw [literalText, escapedPieces, List.flatMap_append, textOf_append, List.flatMap_map]
  have kept : (escapedBefore rest value).flatMap
      (fun character => filledPiece holePieces bindings (.character character)) =
        (escapedBefore rest value).map .character :=
    List.flatMap_pure_eq_map _ _
  rw [kept, textOf_characters]
  rfl

theorem literalText_placeholder (name : List Char) (rest : List PathPiece) :
    literalText bindings (.placeholder name :: rest) =
      textOf (filledPiece holePieces bindings (.placeholder (name.flatMap escapedCharacter))) ++
        literalText bindings rest := by
  rw [literalText, escapedPieces, List.flatMap_cons, textOf_append]
  rfl

/-- What follows a character that no placeholder follows does not start with a brace. -/
theorem head?_literalText_ne {pieces : List PathPiece} (plain : ∀ piece ∈ pieces, piece.IsPlain)
    (start : startsWithPlaceholder pieces = false) :
    (literalText bindings pieces ++ ['\x60']).head? ≠ some '\x7b' := by
  cases pieces with
  | nil => simp [literalText, escapedPieces, textOf]
  | cons first rest =>
    cases first with
    | placeholder name => cases start
    | character value =>
      have noBrace := (plain _ List.mem_cons_self).1
      rw [literalText_character, escapedBefore, escapedCharacter]
      split
      · simp
      · split
        · simp
        · simpa using noBrace

/-- The text between the backticks is read as the parts of the path. -/
theorem readParts?_literalText (standing : ∀ binding ∈ bindings, IsPathBinding binding)
    {pieces : List PathPiece} (plain : ∀ piece ∈ pieces, piece.IsPlain)
    (noReturn : '\r' ∉ textOf pieces) :
    readParts? none (literalText bindings pieces ++ ['\x60']) =
      some ((partsOf bindings pieces).map PathPart.template) := by
  induction pieces with
  | nil => rfl
  | cons first rest inductionHypothesis =>
    have restPlain : ∀ piece ∈ rest, piece.IsPlain :=
      fun other member => plain other (List.mem_cons_of_mem _ member)
    have firstPlain := plain first List.mem_cons_self
    rw [textOf, List.flatMap_cons, ← textOf, List.mem_append, not_or] at noReturn
    have further := inductionHypothesis restPlain noReturn.2
    rw [partsOf, List.flatMap_cons, ← partsOf, List.map_append]
    cases first with
    | character value =>
      rw [literalText_character, List.append_assoc, escapedBefore]
      have valueNoReturn : value ≠ '\r' := fun same => noReturn.1 (same ▸ List.mem_singleton_self _)
      split
      · next dollar =>
        have special : '$' ∈ ['\\', '\x60', '$'] := by decide
        have read := TypeScript.readParts?_escaped special (literalText bindings rest ++ ['\x60'])
        rw [further] at read
        rw [dollar.1]
        exact read
      · next ordinary =>
        rw [not_and, Bool.not_eq_true] at ordinary
        rw [readParts?_escapedCharacter valueNoReturn
          fun dollar => head?_literalText_ne restPlain (ordinary dollar), further]
        rfl
    | placeholder name =>
      rw [literalText_placeholder, filledPiece, find?_escaped standing, PathPiece.parts]
      cases found : bindings.find? fun binding => binding.external.toList = name with
      | some binding =>
        have code := isPlainCode_holeCode (standing binding (List.mem_of_find?_eq_some found))
        have nonempty : holeCode binding.internal ≠ [] :=
          List.ne_nil_of_mem (parenthesis_mem_holeCode _)
        have read := TypeScript.readParts?_hole code nonempty (literalText bindings rest ++ ['\x60'])
        rw [further] at read
        show readParts? none (textOf (holePieces binding) ++ _ ++ _) = _
        rw [textOf_holePieces, hole_eq, List.append_assoc, List.append_assoc]
        exact read
      | none =>
        have nameNoReturn : '\r' ∉ name := fun member =>
          noReturn.1 (List.mem_append_left _ (List.mem_cons_of_mem _ member))
        have read := readParts?_unbound firstPlain.1 nameNoReturn
          (literalText bindings rest ++ ['\x60'])
        rw [further] at read
        rw [List.map_map, List.append_assoc]
        show readParts? none (textOf [.placeholder (name.flatMap escapedCharacter)] ++ _) = _
        rw [textOf, List.flatMap_singleton]
        exact read

end

/-! ### Both paths -/

theorem exists_binding_of_mem_partsOf {bindings : List Binding} {pieces : List PathPiece}
    {internal : String} (member : .argument internal ∈ partsOf bindings pieces) :
    ∃ binding ∈ bindings, binding.internal = internal := by
  obtain ⟨piece, -, inside⟩ := List.mem_flatMap.mp member
  cases piece with
  | character value => cases List.mem_singleton.mp inside
  | placeholder name =>
    rw [PathPiece.parts] at inside
    split at inside
    · next binding found =>
      have same := List.mem_singleton.mp inside
      exact ⟨binding, List.mem_of_find?_eq_some found, (PathPart.argument.inj same).symm⟩
    · obtain ⟨character, -, same⟩ := List.mem_map.mp inside
      cases same

/-- In which order arguments with different names are listed makes no difference. -/
theorem partsOf_eq_of_perm {listed bindings : List Binding} (reordered : listed.Perm bindings)
    (distinct : (bindings.map Binding.external).Nodup) (pieces : List PathPiece) :
    partsOf listed pieces = partsOf bindings pieces := by
  refine List.flatMap_congr fun piece _ => ?_
  cases piece with
  | character value => rfl
  | placeholder name =>
    have single : {binding ∈ bindings | decide (binding.external.toList = name) = true}.Subsingleton := by
      rintro first ⟨firstMember, firstName⟩ second ⟨secondMember, secondName⟩
      have same := (of_decide_eq_true firstName).trans (of_decide_eq_true secondName).symm
      exact List.inj_on_of_nodup_map distinct firstMember secondMember (String.toList_inj.mp same)
    rw [PathPiece.parts, PathPiece.parts, (List.find?_eq_find?_of_perm reordered.symm single).symm]

theorem hasParts_partsOf {plan : RequestPlan} {pieces : List PathPiece}
    (path : plan.path.toList = textOf pieces) (plain : ∀ piece ∈ pieces, piece.IsPlain)
    (noReturn : '\r' ∉ plan.path.toList)
    (standing : ∀ binding ∈ plan.pathBindings, IsPathBinding binding) :
    HasParts plan (partsOf plan.pathBindings pieces) where
  template := by
    rw [pathExpression_eq path plain standing]
    rw [path] at noReturn
    exact readParts?_literalText standing plain noReturn
  given made internal member := by
    obtain ⟨-, filled, found, -⟩ := RequestPlan.request_eq_ok_iff.mp made
    obtain ⟨binding, inside, rfl⟩ := exists_binding_of_mem_partsOf member
    exact (RequestPlan.fillPath_eq_ok_iff.mp found).1 binding inside
  path made := by
    obtain ⟨-, filled, found, rfl⟩ := RequestPlan.request_eq_ok_iff.mp made
    rw [path] at found
    rw [String.toList_ofList, ← (RequestPlan.fillPath_eq_ok_iff.mp found).2]
    exact foldl_encoded_textOf standing plain _

/-- The template literal of a path and the path of a request have the same parts, and they do so in
whatever order the arguments are listed if their names are different. -/
theorem hasParts_of_perm {plan : RequestPlan} {pieces : List PathPiece}
    (path : plan.path.toList = textOf pieces) (plain : ∀ piece ∈ pieces, piece.IsPlain)
    (noReturn : '\r' ∉ plan.path.toList)
    (standing : ∀ binding ∈ plan.pathBindings, IsPathBinding binding) :
    HasParts plan (partsOf plan.pathBindings pieces) ∧
      ((plan.pathBindings.map Binding.external).Nodup →
        ∀ listed : List Binding, listed.Perm plan.pathBindings →
          HasParts { plan with pathBindings := listed } (partsOf plan.pathBindings pieces)) := by
  refine ⟨hasParts_partsOf path plain noReturn standing, fun distinct listed reordered => ?_⟩
  have listedStanding : ∀ binding ∈ listed, IsPathBinding binding :=
    fun binding member => standing binding (reordered.mem_iff.mp member)
  rw [← partsOf_eq_of_perm reordered distinct]
  exact hasParts_partsOf path plain noReturn listedStanding

/-- The pieces of a path with a backslash and a dollar sign before a placeholder, and with another one
that no argument replaces. -/
def trickyPieces : List PathPiece :=
  "/\\$".toList.map .character ++ [.placeholder "id".toList] ++ "/\x60$".toList.map .character ++
    [.placeholder "$rest\\".toList, .placeholder "who".toList]

/-- A plan for this path. -/
def trickyPlan : RequestPlan where
  verb := .get
  path := "/\\$\x7bid\x7d/\x60$\x7b$rest\\\x7d\x7bwho\x7d"
  required := ["id", "who_2"]
  pathBindings := [⟨"id", "id"⟩, ⟨"who_2", "who"⟩]
  queryBindings := []
  body := .none

/-- The parts of this path. -/
def trickyParts : List PathPart :=
  "/\\$".toList.map .character ++ [.argument "id"] ++
    "/\x60$\x7b$rest\\\x7d".toList.map .character ++ [.argument "who_2"]

/-- The template literal of this path, the path of a request, and the parts that both have. -/
theorem hasParts_trickyPlan :
    pathExpression trickyPlan =
        "\x60/\\\\\\$$\x7bencodeURIComponent(String(id))\x7d/\\\x60\\$\x7b$rest\\\\\x7d" ++
          "$\x7bencodeURIComponent(String(who_2))\x7d\x60" ∧
      ((trickyPlan.request [("id", .text "\x7bwho\x7d$"), ("who_2", .bool true)]).toOption.map
        HttpRequest.path) = some "/\\$%7Bwho%7D%24/\x60$\x7b$rest\\\x7dtrue" ∧
      HasParts trickyPlan trickyParts ∧
      HasParts { trickyPlan with pathBindings := [⟨"who_2", "who"⟩, ⟨"id", "id"⟩] } trickyParts := by
  have parts : partsOf trickyPlan.pathBindings trickyPieces = trickyParts := by decide +kernel
  have path : trickyPlan.path.toList = textOf trickyPieces := by decide +kernel
  have both := hasParts_of_perm path (by decide +kernel) (by decide +kernel) (by decide +kernel)
  rw [parts] at both
  exact ⟨by decide +kernel, by decide +kernel, both.1,
    both.2 (by decide) _ (List.Perm.swap _ _ _)⟩

/-! ### Methods -/

/-- Identifiers are plain code. -/
theorem isPlainCode_of_isIdentifier {name : String} (identifier : Name.IsIdentifier name) :
    ∀ character ∈ name.toList, isPlainCode character = true := by
  obtain ⟨first, rest, whole, starts, continued⟩ := identifier
  have ofName {character : Char} (continues : Text.continuesName character = true) :
      isPlainCode character = true := by
    rw [isPlainCode, Bool.not_eq_true', ← Bool.not_eq_true, List.contains_iff_mem]
    intro special
    simp only [List.mem_cons, List.not_mem_nil, or_false] at special
    rcases special with rfl | rfl | rfl | rfl | rfl | rfl | rfl <;> cases continues
  have letter : Text.continuesName first = true := by
    simp [Text.continuesName, Text.isAlphanumeric, starts]
  rw [whole, List.forall_mem_cons]
  exact ⟨ofName letter, fun character member => ofName (continued character member)⟩

/-- The names of the parameters of a method are identifiers, so all that its two paths need to have the
same parts is a path whose braces make placeholders, and names without marks. -/
theorem IsCoherent.hasParts {operation : ExtractedOperation} {resolved : List Parameter}
    {method : Method} (coherent : IsCoherent operation resolved method) {pieces : List PathPiece}
    (path : method.plan.path.toList = textOf pieces) (plain : ∀ piece ∈ pieces, piece.IsPlain)
    (noReturn : '\r' ∉ method.plan.path.toList)
    (noMark : ∀ binding ∈ method.plan.pathBindings, ∀ character ∈ binding.external.toList,
      isMark character = false) :
    HasParts method.plan (partsOf method.plan.pathBindings pieces) := by
  refine hasParts_partsOf path plain noReturn fun binding member => ⟨?_, noMark binding member⟩
  rw [coherent.path] at member
  obtain ⟨parameter, inside, rfl⟩ := List.mem_map.mp member
  have given : parameter ∈ method.parameters :=
    coherent.permutation.mem_iff.mpr (List.mem_of_mem_filter inside)
  exact isPlainCode_of_isIdentifier (coherent.names parameter given).1

end ApiSurface.Client
