/-
This file proves that entries read back. The head of an entry stands at the indentation of its
section, so it starts an entry; a further line is indented deeper, so it never does, whatever its
words look like. Reading therefore finds the entries that were written, each with its own lines, and
folding those lines joins the words that the layout had dealt out.
-/

import ApiSurface.Proofs.DocBlock.Header
import ApiSurface.Proofs.DocBlock.Wrapping
import ApiSurface.Proofs.Text.Case
import Mathlib.Data.List.TakeDrop

namespace ApiSurface.DocBlock

open Text (AreWords spaced)

/-! ### Indentation -/

theorem isBlank_of_mem_entryIndent : ∀ character ∈ entryIndent, Text.isBlank character = true :=
  List.all_eq_true.mp (by decide)

theorem isBlank_of_mem_continuationIndent :
    ∀ character ∈ continuationIndent, Text.isBlank character = true :=
  List.all_eq_true.mp (by decide)

theorem indentation_append {blanks text : List Char}
    (blank : ∀ character ∈ blanks, Text.isBlank character = true)
    (solid : ∀ first ∈ text.head?, Text.isBlank first = false) :
    indentation (blanks ++ text) = indentation blanks := by
  have runs : blanks.takeWhile Text.isBlank = blanks := List.takeWhile_eq_self_iff.mpr blank
  rw [indentation, Text.takeWhile_append_of_stop blank solid, indentation, runs]

theorem indentation_entryIndent {text : List Char}
    (solid : ∀ first ∈ text.head?, Text.isBlank first = false) :
    indentation (entryIndent ++ text) = 4 :=
  indentation_append isBlank_of_mem_entryIndent solid

theorem indentation_continuationLine {words : List (List Char)} (plain : AreWords words) :
    indentation (continuationLine words) = 8 :=
  indentation_append isBlank_of_mem_continuationIndent (Text.head?_spaced_not_blank plain)

theorem trim_continuationLine {words : List (List Char)} (plain : AreWords words) :
    Text.trim (continuationLine words) = spaced words := by
  rw [continuationLine, Text.trim_append_of_blank isBlank_of_mem_continuationIndent,
    Text.trim_spaced plain]

theorem isFilled_of_isSolid {line : List Char} (solid : IsSolid line) : isFilled line = true := by
  obtain ⟨-, last, found, notBlank⟩ := solid
  rw [isFilled, Bool.not_eq_true', List.isEmpty_eq_false_iff]
  intro empty
  rw [(Text.trim_eq_nil_iff line).mp empty last (List.mem_of_getLast? found)] at notBlank
  exact Bool.noConfusion notBlank

/-! ### Folding -/

/-- Folding the lines over which words were dealt out joins the words. -/
theorem folded_layout {taken : List (List Char)} {groups : List (List (List Char))}
    (plain : AreWords (taken ++ groups.flatten)) (nonempty : ∀ group ∈ groups, group ≠ [])
    {line : List Char} (first : Text.trim line = spaced taken) :
    folded (line :: groups.map continuationLine) = spaced (taken ++ groups.flatten) := by
  have trimmed : (groups.map continuationLine).map Text.trim = groups.map spaced := by
    rw [List.map_map]
    exact List.map_congr_left fun group member =>
      trim_continuationLine (AreWords.of_mem_flatten plain.of_append_right member)
  have kept : (groups.map spaced).filter (fun line => !line.isEmpty) = groups.map spaced := by
    refine List.filter_eq_self.mpr fun line member => ?_
    obtain ⟨group, inside, rfl⟩ := List.mem_map.mp member
    rw [Bool.not_eq_true', List.isEmpty_eq_false_iff]
    exact Text.spaced_ne_nil (AreWords.of_mem_flatten plain.of_append_right inside)
      (nonempty group inside)
  rw [folded, List.map_cons, trimmed, first]
  by_cases none : taken = []
  · rw [none, List.nil_append, ← Text.spaced_map_spaced nonempty]
    exact congrArg spaced kept
  · have here : (!(spaced taken).isEmpty) = true := by
      rw [Bool.not_eq_true', List.isEmpty_eq_false_iff]
      exact Text.spaced_ne_nil plain.of_append_left none
    have all : ∀ group ∈ taken :: groups, group ≠ [] := by
      intro group member
      rcases List.mem_cons.mp member with rfl | further
      · exact none
      · exact nonempty group further
    rw [List.filter_cons, if_pos here, kept]
    exact Text.spaced_map_spaced all

/-! ### Gathering -/

/-- Lines that are read as one entry with the given head and text: the first one starts it, and no
other is shallow enough to start another. -/
def IsEntry {Head : Type} (head? : List Char → Option (Head × List Char)) (base : Nat)
    (lines : List (List Char)) (head : Head) (text : List Char) : Prop :=
  ∃ first rest spill, lines = first :: rest ∧ indentation first = base ∧
    head? (Text.trim first) = some (head, spill) ∧ (∀ line ∈ rest, base < indentation line) ∧
    folded (spill :: rest) = text

section

variable {Head : Type} {head? : List Char → Option (Head × List Char)} {base : Nat}

theorem gather_append {lines : List (List Char)} (deep : ∀ line ∈ lines, base < indentation line)
    (rest : List (List Char)) :
    gather head? base (lines ++ rest) =
      (lines ++ (gather head? base rest).1, (gather head? base rest).2) := by
  induction lines with
  | nil => rfl
  | cons line others inductionHypothesis =>
    have later := inductionHypothesis fun other member => deep other (List.mem_cons_of_mem _ member)
    rw [List.cons_append, gather, later, if_neg (Nat.not_le.mpr (deep line List.mem_cons_self))]
    rfl

theorem gather_cons {line text : List Char} {head : Head} (shallow : indentation line ≤ base)
    (read : head? (Text.trim line) = some (head, text)) (rest : List (List Char)) :
    gather head? base (line :: rest) =
      ([], (head, text :: (gather head? base rest).1) :: (gather head? base rest).2) := by
  rw [gather, if_pos shallow, read]

variable {Item : Type} {written : Item → List (List Char)} {heads : Item → Head}
  {texts : Item → List Char}

/-- Entries written one below the other are gathered one by one. -/
theorem gather_flatMap {items : List Item}
    (each : ∀ item ∈ items, IsEntry head? base (written item) (heads item) (texts item)) :
    (gather head? base (items.flatMap written)).1 = [] ∧
      (gather head? base (items.flatMap written)).2.map (fun entry => (entry.1, folded entry.2)) =
        items.map fun item => (heads item, texts item) := by
  induction items with
  | nil => exact ⟨rfl, rfl⟩
  | cons item others inductionHypothesis =>
    obtain ⟨loose, found⟩ := inductionHypothesis fun other member =>
      each other (List.mem_cons_of_mem _ member)
    obtain ⟨first, rest, spill, lines, shallow, read, deep, joined⟩ := each item List.mem_cons_self
    rw [List.flatMap_cons, lines, List.cons_append, gather_cons shallow.le read, gather_append deep,
      loose, List.append_nil]
    refine ⟨rfl, ?_⟩
    rw [List.map_cons, List.map_cons, joined, found]

/-- Entries written one below the other are read in their order. -/
theorem entries_flatMap {items : List Item}
    (each : ∀ item ∈ items, IsEntry head? base (written item) (heads item) (texts item)) :
    entries head? (items.flatMap written) = items.map fun item => (heads item, texts item) := by
  cases items with
  | nil => rfl
  | cons item others =>
    obtain ⟨first, rest, spill, lines, shallow, -⟩ := each item List.mem_cons_self
    have start : (((item :: others).flatMap written).head?.map indentation).getD 0 = base := by
      rw [List.flatMap_cons, lines]
      exact shallow
    rw [entries, start]
    exact (gather_flatMap each).2

theorem entries_map {items : List Item} {line : Item → List Char}
    (each : ∀ item ∈ items, IsEntry head? base [line item] (heads item) (texts item)) :
    entries head? (items.map line) = items.map fun item => (heads item, texts item) := by
  rw [List.map_eq_flatMap]
  exact entries_flatMap each

end

/-! ### Heads -/

/-- A text whose first character starts a name and whose further characters continue one. -/
def IsName (continues : Char → Bool) (text : List Char) : Prop :=
  ∃ first rest, text = first :: rest ∧ Text.startsName first = true ∧
    ∀ character ∈ rest, continues character = true

instance decidableIsName (continues : Char → Bool) (text : List Char) :
    Decidable (IsName continues text) :=
  match text with
  | [] => isFalse fun ⟨_, _, equal, _⟩ => List.cons_ne_nil _ _ equal.symm
  | first :: rest => decidable_of_iff
      (Text.startsName first = true ∧ rest.all continues = true) <| by
    constructor
    · rintro ⟨starts, continued⟩
      exact ⟨first, rest, rfl, starts, List.all_eq_true.mp continued⟩
    · rintro ⟨_, _, equal, starts, continued⟩
      obtain ⟨rfl, rfl⟩ := List.cons.inj equal
      exact ⟨starts, List.all_eq_true.mpr continued⟩

/-- Whether the kind of a failure may continue with the character: a name may, and so may a dot. -/
def continuesKind (character : Char) : Bool :=
  Text.continuesName character || character == '.'

theorem leadingName?_append {continues : Char → Bool} {name : List Char}
    (named : IsName continues name) {stop : Char} (stops : continues stop = false)
    (rest : List Char) :
    leadingName? continues (name ++ stop :: rest) = some (name, stop :: rest) := by
  obtain ⟨first, others, rfl, starts, continued⟩ := named
  have ends : ∀ next ∈ (stop :: rest).head?, continues next = false := by
    intro next member
    obtain rfl := Option.some.inj member
    exact stops
  rw [List.cons_append, leadingName?, if_pos starts, Text.takeWhile_append_of_stop continued ends,
    Text.dropWhile_append_of_stop continued ends]

/-- What stands behind the colon of a head: the words on its line, or nothing. -/
theorem afterColon?_trailing {words : List (List Char)} (plain : AreWords words) :
    afterColon? (':' :: trailing words) = some (spaced words) := by
  by_cases none : words = []
  · rw [none]
    rfl
  · rw [trailing_of_ne_nil none, afterColon?, if_pos (by decide), Text.trim_spaced plain]

/-- A head is trimmed if what stands behind its colon is. -/
theorem trim_head {name inner behind : List Char} {continues : Char → Bool}
    (named : IsName continues name) (ended : Text.trimEnd behind = behind) :
    Text.trim (name ++ inner ++ ':' :: behind) = name ++ inner ++ ':' :: behind := by
  obtain ⟨first, others, rfl, starts, -⟩ := named
  refine (Text.trim_eq_self_iff _).mpr ⟨?_, ?_⟩
  · intro character member
    obtain rfl := Option.some.inj member
    exact Text.isBlank_of_startsName starts
  · have colon : Text.trimEnd (':' :: behind) = ':' :: behind := by
      rw [Text.trimEnd_cons_of_not_blank (by decide), ended]
    rw [List.getLast?_append_of_ne_nil _ (List.cons_ne_nil _ _)]
    exact (Text.trimEnd_eq_self_iff _).mp colon

theorem trimEnd_trailing {words : List (List Char)} (plain : AreWords words) :
    Text.trimEnd (trailing words) = trailing words := by
  by_cases none : words = []
  · rw [none]
    rfl
  · rw [Text.trimEnd_eq_self_iff, trailing_of_ne_nil none,
      List.getLast?_cons_of_ne_nil (Text.spaced_ne_nil plain none)]
    exact Text.getLast?_spaced_not_blank plain

/-- What the parentheses of a head hold, as the head writes it. -/
def hintText : Option String → List Char
  | some hint => ' ' :: '(' :: hint.toList ++ [')']
  | none => []

theorem argumentHead_eq (argument : Argument) :
    argumentHead argument =
      entryIndent ++ (argument.name.toList ++ hintText argument.typeHint ++ [':']) := by
  unfold argumentHead hintText
  cases argument.typeHint with
  | none => simp only [List.append_assoc, List.append_nil]
  | some hint => simp only [List.append_assoc, List.cons_append, List.nil_append]

section

variable {behind text : List Char} (read : afterColon? (':' :: behind) = some text)

include read

theorem argumentHead?_none {name : List Char} (named : IsName Text.continuesName name) :
    argumentHead? (name ++ ':' :: behind) = some ((name, []), text) := by
  unfold argumentHead?
  rw [leadingName?_append named (by decide), Option.bind_eq_bind, Option.bind_some]
  have colon : Text.trimStart (':' :: behind) = ':' :: behind :=
    Text.trimStart_cons_of_not_blank (by decide) _
  simp only [colon]
  show (afterColon? (':' :: behind)).map _ = _
  rw [read]
  rfl

theorem argumentHead?_some {name hint : List Char} (named : IsName Text.continuesName name)
    (inside : ')' ∉ hint) (trimmed : Text.trim hint = hint) :
    argumentHead? (name ++ (' ' :: '(' :: hint ++ [')']) ++ ':' :: behind) =
      some ((name, hint), text) := by
  have whole : name ++ (' ' :: '(' :: hint ++ [')']) ++ ':' :: behind =
      name ++ ' ' :: '(' :: (hint ++ ')' :: ':' :: behind) := by
    simp only [List.append_assoc, List.cons_append, List.nil_append]
  unfold argumentHead?
  rw [whole, leadingName?_append named (by decide), Option.bind_eq_bind, Option.bind_some]
  have opening : Text.trimStart (' ' :: '(' :: (hint ++ ')' :: ':' :: behind)) =
      '(' :: (hint ++ ')' :: ':' :: behind) := by
    rw [Text.trimStart_cons_of_blank (by decide), Text.trimStart_cons_of_not_blank (by decide)]
  simp only [opening]
  have within : ∀ character ∈ hint, (character != ')') = true := fun character member =>
    bne_iff_ne.mpr fun same => inside (same ▸ member)
  have closing : ∀ first ∈ (')' :: ':' :: behind).head?, (first != ')') = false := by
    intro first member
    obtain rfl := Option.some.inj member
    decide
  have cut : (hint ++ ')' :: ':' :: behind).span (· != ')') = (hint, ')' :: ':' :: behind) := by
    rw [List.span_eq_takeWhile_dropWhile, Text.takeWhile_append_of_stop within closing,
      Text.dropWhile_append_of_stop within closing]
  rw [cut, trimmed, List.drop_one, List.tail_cons, Text.trimStart_cons_of_not_blank (by decide),
    read, Option.map_some]

theorem failureHead?_eq_some {kind : List Char} (named : IsName continuesKind kind) :
    failureHead? (kind ++ ':' :: behind) = some (kind, text) := by
  show (leadingName? continuesKind (kind ++ ':' :: behind)).bind _ = _
  rw [leadingName?_append named (by decide), Option.bind_some]
  show (afterColon? (Text.trimStart (':' :: behind))).map _ = _
  rw [Text.trimStart_cons_of_not_blank (by decide), read]
  rfl

end

/-! ### Entries as they are written -/

/-- A wrapped entry is one entry, whose text has its words joined again, if its head is read whatever
words stand on its line. -/
theorem isEntry_wrapEntry {Head : Type} {head? : List Char → Option (Head × List Char)}
    {name inner : List Char} {continues : Char → Bool} (named : IsName continues name) {head : Head}
    (read : ∀ words, AreWords words →
      head? (name ++ inner ++ ':' :: trailing words) = some (head, spaced words))
    (text : List Char) :
    IsEntry head? 4 (wrapEntry (entryIndent ++ (name ++ inner ++ [':'])) text) head
      (Text.joinedWords text) := by
  obtain ⟨taken, groups, dealt, nonempty, -, wrapped⟩ :=
    exists_layout (entryIndent ++ (name ++ inner ++ [':'])) text
  have plain : AreWords (taken ++ groups.flatten) := dealt ▸ Text.areWords_words text
  have here := plain.of_append_left
  have colon : (entryIndent ++ (name ++ inner ++ [':'])).getLast? ≠ some ' ' := by
    rw [← List.append_assoc, List.getLast?_concat]
    decide
  have line : entryIndent ++ (name ++ inner ++ [':']) ++ trailing taken =
      entryIndent ++ (name ++ inner ++ ':' :: trailing taken) := by
    simp only [List.append_assoc, List.cons_append, List.nil_append]
  rw [behindHead_of_not_space colon, line] at wrapped
  refine ⟨_, _, spaced taken, wrapped, ?_, ?_, ?_, ?_⟩
  · obtain ⟨first, others, rfl, starts, -⟩ := named
    refine indentation_entryIndent fun character member => ?_
    obtain rfl := Option.some.inj member
    exact Text.isBlank_of_startsName starts
  · rw [Text.trim_append_of_blank isBlank_of_mem_entryIndent, trim_head named (trimEnd_trailing here)]
    exact read taken here
  · intro deeper member
    obtain ⟨group, inside, rfl⟩ := List.mem_map.mp member
    rw [indentation_continuationLine (AreWords.of_mem_flatten plain.of_append_right inside)]
    decide
  · rw [folded_layout plain nonempty (Text.trim_spaced here), ← dealt]
    rfl

/-- What the parentheses of an entry are read as: its hint, or nothing. -/
def hintOf (argument : Argument) : List Char :=
  (argument.typeHint.map String.toList).getD []

theorem of_hintOf {argument : Argument} {holds : List Char → Prop} (nothing : holds [])
    (each : ∀ hint ∈ argument.typeHint, holds hint.toList) : holds (hintOf argument) := by
  unfold hintOf
  cases given : argument.typeHint with
  | none => exact nothing
  | some hint => exact each hint given

theorem isEntry_argument {argument : Argument}
    (named : IsName Text.continuesName argument.name.toList)
    (hinted : ∀ hint ∈ argument.typeHint, ')' ∉ hint.toList ∧ Text.trim hint.toList = hint.toList)
    (text : List Char) :
    IsEntry argumentHead? 4 (wrapEntry (argumentHead argument) text)
      (argument.name.toList, hintOf argument) (Text.joinedWords text) := by
  rw [argumentHead_eq]
  refine isEntry_wrapEntry named (fun words plain => ?_) text
  cases given : argument.typeHint with
  | none =>
    rw [hintText, List.append_nil, hintOf, given]
    exact argumentHead?_none (afterColon?_trailing plain) named
  | some hint =>
    obtain ⟨inside, trimmed⟩ := hinted hint given
    rw [hintText, hintOf, given]
    exact argumentHead?_some (afterColon?_trailing plain) named inside trimmed

theorem isEntry_failure {failure : Failure} (named : IsName continuesKind failure.kind.toList)
    (text : List Char) :
    IsEntry failureHead? 4 (wrapEntry (failureHead failure) text) failure.kind.toList
      (Text.joinedWords text) := by
  have head : failureHead failure = entryIndent ++ (failure.kind.toList ++ [] ++ [':']) := by
    rw [failureHead, List.append_nil, List.append_assoc]
  rw [head]
  refine isEntry_wrapEntry named (fun words plain => ?_) text
  rw [List.append_nil]
  exact failureHead?_eq_some (afterColon?_trailing plain) named

end ApiSurface.DocBlock
