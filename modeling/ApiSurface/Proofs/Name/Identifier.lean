/-
This file proves that any text becomes an identifier. What is left between the underscores at the ends
starts with a letter or a digit, and a digit gets a letter in front. No word that the language keeps
for itself holds an underscore, so one underscore at the end is enough to avoid them all. That one is
dropped like any other when the identifier is made into an identifier again; but then the word is left,
and gets it back.
-/

import ApiSurface.Name.Identifier
import ApiSurface.Proofs.Text.Case
import Mathlib.Data.List.DropRight

namespace ApiSurface.Name

/-- An ASCII letter, and after it ASCII letters, digits and underscores. -/
def IsIdentifier (name : String) : Prop :=
  ∃ first rest, name.toList = first :: rest ∧ Text.isLetter first = true ∧
    ∀ character ∈ rest, Text.continuesName character = true

instance decidableIsIdentifier (name : String) : Decidable (IsIdentifier name) :=
  match whole : name.toList with
  | [] => isFalse fun ⟨_, _, equal, _⟩ => List.cons_ne_nil _ _ (equal.symm.trans whole)
  | first :: rest => decidable_of_iff
      (Text.isLetter first = true ∧ rest.all Text.continuesName = true) <| by
    constructor
    · rintro ⟨starts, continued⟩
      exact ⟨first, rest, whole, starts, List.all_eq_true.mp continued⟩
    · rintro ⟨_, _, equal, starts, continued⟩
      obtain ⟨rfl, rfl⟩ := List.cons.inj (whole.symm.trans equal)
      exact ⟨starts, List.all_eq_true.mpr continued⟩

/-- An identifier stays one when something is appended that may continue it. -/
theorem IsIdentifier.of_append {base name : String} (identifier : IsIdentifier base)
    {tail : List Char} (whole : name.toList = base.toList ++ tail)
    (continued : ∀ character ∈ tail, Text.continuesName character = true) : IsIdentifier name := by
  obtain ⟨first, rest, same, starts, inside⟩ := identifier
  refine ⟨first, rest ++ tail, by rw [whole, same, List.cons_append], starts, ?_⟩
  intro character member
  rcases List.mem_append.mp member with before | after
  · exact inside character before
  · exact continued character after

theorem IsIdentifier.head?_ne_underscore {name : String} (identifier : IsIdentifier name) :
    name.toList.head? ≠ some '_' := by
  obtain ⟨first, rest, whole, starts, -⟩ := identifier
  rw [whole]
  intro same
  rw [Option.some.inj same] at starts
  exact absurd starts (by decide)

/-! ### Bare identifiers -/

theorem bareIdentifier_isPrefix (text : List Char) :
    bareIdentifier text <+:
      (text.map fun character => if Text.continuesName character then character else '_').dropWhile
        (· == '_') :=
  List.rdropWhile_prefix _ _

theorem continuesName_of_mem_bareIdentifier {text : List Char} {character : Char}
    (member : character ∈ bareIdentifier text) : Text.continuesName character = true := by
  have inside := (List.dropWhile_suffix _).mem ((bareIdentifier_isPrefix text).mem member)
  obtain ⟨given, -, rfl⟩ := List.mem_map.mp inside
  split
  · next continues => exact continues
  · decide

/-- What is left of a text does not start with an underscore. -/
theorem head_bareIdentifier {text rest : List Char} {first : Char}
    (left : bareIdentifier text = first :: rest) : first ≠ '_' := by
  obtain ⟨more, whole⟩ := left ▸ bareIdentifier_isPrefix text
  have start := List.head?_dropWhile_not (· == '_')
    (text.map fun character => if Text.continuesName character then character else '_')
  rw [← whole] at start
  exact fun same => Bool.noConfusion (start.symm.trans (beq_iff_eq.mpr same))

/-! ### Reserved words -/

/-- No reserved word holds an underscore. -/
theorem underscore_notMem_of_isReserved {name : String} (reserved : isReserved name = true) :
    '_' ∉ name.toList := by
  have each : ∀ word ∈ reservedWords, '_' ∉ word.toList := by decide +kernel
  exact each name (List.contains_iff_mem.mp reserved)

/-- The identifier that is made for a text before reserved words are avoided. -/
def rawIdentifier (text : String) : String :=
  String.ofList (match bareIdentifier text.toList with
    | [] => "param".toList
    | first :: rest => if Text.isDigit first then 'p' :: '_' :: first :: rest else first :: rest)

theorem sanitize_eq (text : String) :
    sanitize text =
      if !receivers.contains (rawIdentifier text) && isReserved (rawIdentifier text) then
        rawIdentifier text ++ "_"
      else rawIdentifier text := rfl

theorem isIdentifier_rawIdentifier (text : String) : IsIdentifier (rawIdentifier text) := by
  unfold rawIdentifier
  split
  · decide
  · next first rest left =>
    have continued : ∀ character ∈ first :: rest, Text.continuesName character = true := by
      rw [← left]
      exact fun character => continuesName_of_mem_bareIdentifier
    split
    · refine ⟨'p', '_' :: first :: rest, String.toList_ofList, by decide, fun character member => ?_⟩
      rcases List.mem_cons.mp member with rfl | further
      · decide
      · exact continued character further
    · next noDigit =>
      refine ⟨first, rest, String.toList_ofList, ?_,
        fun character member => continued character (List.mem_cons_of_mem _ member)⟩
      have starts := continued first List.mem_cons_self
      rw [Text.continuesName, Text.isAlphanumeric, Bool.eq_false_iff.mpr noDigit,
        beq_false_of_ne (head_bareIdentifier left), Bool.or_false, Bool.or_false] at starts
      exact starts

/-- Every text becomes an identifier. -/
theorem isIdentifier_sanitize (text : String) : IsIdentifier (sanitize text) := by
  rw [sanitize_eq]
  split
  · exact (isIdentifier_rawIdentifier text).of_append String.toList_append
      (List.all_eq_true.mp (by decide))
  · exact isIdentifier_rawIdentifier text

/-- The identifier of a text is a reserved word only if it names a receiver. -/
theorem mem_receivers_of_isReserved_sanitize {text : String}
    (reserved : isReserved (sanitize text) = true) : sanitize text ∈ receivers := by
  have noUnderscore := underscore_notMem_of_isReserved reserved
  rw [sanitize_eq] at reserved noUnderscore ⊢
  split at reserved
  · next avoided =>
    rw [if_pos avoided, String.toList_append] at noUnderscore
    exact absurd (List.mem_append_right _ (by decide)) noUnderscore
  · next kept =>
    rw [if_neg kept]
    rw [reserved, Bool.and_true, Bool.not_eq_true', Bool.not_eq_false] at kept
    exact List.contains_iff_mem.mp kept

/-! ### Identifiers of identifiers -/

/-- What is left of a text does not end with an underscore. -/
theorem getLast?_bareIdentifier (text : List Char) : (bareIdentifier text).getLast? ≠ some '_' := by
  intro last
  have filled : bareIdentifier text ≠ [] := List.ne_nil_of_mem (List.mem_of_getLast? last)
  refine List.rdropWhile_last_not (· == '_') _ filled (beq_iff_eq.mpr ?_)
  exact Option.some.inj ((List.getLast?_eq_some_getLast filled).symm.trans last)

theorem bareIdentifier_concat_underscore (text : List Char) :
    bareIdentifier (text ++ ['_']) = bareIdentifier text := by
  have step (run : List Char) :
      ((run ++ ['_']).dropWhile (· == '_')).rdropWhile (· == '_') =
        (run.dropWhile (· == '_')).rdropWhile (· == '_') := by
    rw [List.dropWhile_append]
    split
    · next nothing => rw [List.isEmpty_iff.mp nothing]; rfl
    · exact List.rdropWhile_concat_pos _ _ _ rfl
  unfold bareIdentifier
  rw [List.map_append, List.map_singleton]
  exact step _

/-- An identifier without an underscore at its end is left as it is. -/
theorem IsIdentifier.bareIdentifier_eq {name : String} (identifier : IsIdentifier name)
    (ends : name.toList.getLast? ≠ some '_') : bareIdentifier name.toList = name.toList := by
  obtain ⟨first, rest, whole, starts, continued⟩ := identifier
  have letter : Text.continuesName first = true := by
    rw [Text.continuesName, Text.isAlphanumeric, starts, Bool.true_or, Bool.true_or]
  have kept : (name.toList.map fun character =>
      if Text.continuesName character then character else '_') = name.toList := by
    refine (List.map_congr_left fun character member => if_pos ?_).trans (List.map_id' _)
    rw [whole] at member
    rcases List.mem_cons.mp member with rfl | further
    · exact letter
    · exact continued character further
  have lead : name.toList.dropWhile (· == '_') = name.toList := by
    rw [whole, List.dropWhile_cons_of_neg]
    rintro underscore
    rw [beq_iff_eq.mp underscore] at starts
    exact absurd starts (by decide)
  unfold bareIdentifier
  dsimp only
  rw [kept, lead]
  refine List.rdropWhile_eq_self_iff.mpr fun filled last => ends ?_
  rw [List.getLast?_eq_some_getLast filled, beq_iff_eq.mp last]

/-- The identifier of a text before reserved words are avoided does not end with an underscore. -/
theorem getLast?_rawIdentifier (text : String) :
    (rawIdentifier text).toList.getLast? ≠ some '_' := by
  have ends := getLast?_bareIdentifier text.toList
  unfold rawIdentifier
  rw [String.toList_ofList]
  split
  · decide
  · next first rest left =>
    rw [left] at ends
    split
    · rwa [List.getLast?_cons_cons, List.getLast?_cons_cons]
    · exact ends

/-- An identifier without an underscore at its end is its own identifier before reserved words are
avoided. -/
theorem IsIdentifier.rawIdentifier_eq {name : String} (identifier : IsIdentifier name)
    (ends : name.toList.getLast? ≠ some '_') : rawIdentifier name = name := by
  have left := identifier.bareIdentifier_eq ends
  obtain ⟨first, rest, whole, starts, -⟩ := identifier
  have known : Text.isAlphanumeric first = true := by
    rw [Text.isAlphanumeric, starts, Bool.true_or]
  have noDigit : Text.isDigit first = false := by
    rw [Text.isLetter_eq_not_isDigit known, Bool.not_eq_true'] at starts
    exact starts
  rw [← String.toList_inj, rawIdentifier, String.toList_ofList, left, whole]
  dsimp only
  rw [noDigit, if_neg Bool.false_ne_true]

theorem rawIdentifier_concat_underscore (text : String) :
    rawIdentifier (text ++ "_") = rawIdentifier text := by
  unfold rawIdentifier
  rw [String.toList_append]
  exact congrArg _ (by rw [show "_".toList = ['_'] from rfl, bareIdentifier_concat_underscore])

/-- Avoiding reserved words changes nothing that is read of an identifier. -/
theorem rawIdentifier_sanitize (text : String) : rawIdentifier (sanitize text) = rawIdentifier text := by
  have settled : rawIdentifier (rawIdentifier text) = rawIdentifier text :=
    (isIdentifier_rawIdentifier text).rawIdentifier_eq (getLast?_rawIdentifier text)
  rw [sanitize_eq text]
  split
  · rw [rawIdentifier_concat_underscore, settled]
  · exact settled

theorem sanitize_sanitize (text : String) : sanitize (sanitize text) = sanitize text := by
  rw [sanitize_eq (sanitize text), rawIdentifier_sanitize, ← sanitize_eq]

/-- Every text becomes an identifier that is no reserved word unless it names a receiver, and that is its
own identifier. -/
theorem sanitize_settles (text : String) :
    IsIdentifier (sanitize text) ∧ (isReserved (sanitize text) = true → sanitize text ∈ receivers) ∧
      sanitize (sanitize text) = sanitize text :=
  ⟨isIdentifier_sanitize text, mem_receivers_of_isReserved_sanitize, sanitize_sanitize text⟩

example : ["pet-id", "2fa", "p_2fa", "delete", "delete_", "this", "__x__", "---"].map sanitize =
    ["pet_id", "p_2fa", "p_2fa", "delete_", "delete_", "this", "x", "param"] := by decide

/-- The form of the identifiers of texts. -/
structure IsSanitized (name : String) : Prop where
  /-- It is an identifier. -/
  identifier : IsIdentifier name
  /-- It is no reserved word unless it names a receiver. -/
  free : isReserved name = true → name ∈ receivers
  /-- An underscore at its end keeps it apart from a reserved word. -/
  ends : ∀ base, name = base ++ "_" → isReserved base = true ∧ base ∉ receivers

theorem isAvoided_iff {name : String} :
    (!receivers.contains name && isReserved name) = true ↔
      isReserved name = true ∧ name ∉ receivers := by
  simp [and_comm]

theorem getLast?_concat_underscore (base : String) : (base ++ "_").toList.getLast? = some '_' := by
  rw [String.toList_append, show "_".toList = ['_'] from rfl, List.getLast?_concat]

theorem isSanitized_sanitize (text : String) : IsSanitized (sanitize text) := by
  refine ⟨isIdentifier_sanitize text, mem_receivers_of_isReserved_sanitize, fun base same => ?_⟩
  rw [sanitize_eq] at same
  split at same
  · next avoided =>
    obtain rfl : rawIdentifier text = base := by
      rw [← String.toList_inj, String.toList_append, String.toList_append] at same
      exact String.toList_inj.mp (List.append_cancel_right same)
    exact isAvoided_iff.mp avoided
  · refine absurd ?_ (getLast?_rawIdentifier text)
    rw [same, getLast?_concat_underscore]

theorem isIdentifier_of_isReserved {name : String} (reserved : isReserved name = true) :
    IsIdentifier name := by
  have each : ∀ word ∈ reservedWords, IsIdentifier word := by decide +kernel
  exact each name (List.contains_iff_mem.mp reserved)

/-- A name of this form is its own identifier. -/
theorem IsSanitized.sanitize_eq_self {name : String} (sanitized : IsSanitized name) :
    sanitize name = name := by
  by_cases last : name.toList.getLast? = some '_'
  · obtain ⟨start, whole⟩ := List.getLast?_eq_some_iff.mp last
    obtain ⟨base, rfl⟩ : ∃ base, name = base ++ "_" := by
      refine ⟨String.ofList start, String.toList_inj.mp ?_⟩
      rw [whole, String.toList_append, String.toList_ofList]
      rfl
    have avoided := sanitized.ends base rfl
    have settled : rawIdentifier base = base :=
      (isIdentifier_of_isReserved avoided.1).rawIdentifier_eq fun last =>
        underscore_notMem_of_isReserved avoided.1 (List.mem_of_getLast? last)
    rw [sanitize_eq, rawIdentifier_concat_underscore, settled, if_pos (isAvoided_iff.mpr avoided)]
  · rw [sanitize_eq, sanitized.identifier.rawIdentifier_eq last, if_neg]
    intro avoided
    obtain ⟨reserved, noReceiver⟩ := isAvoided_iff.mp avoided
    exact noReceiver (sanitized.free reserved)

theorem exists_sanitize_eq_iff {name : String} : (∃ text, sanitize text = name) ↔ IsSanitized name := by
  constructor
  · rintro ⟨text, rfl⟩
    exact isSanitized_sanitize text
  · exact fun sanitized => ⟨name, sanitized.sanitize_eq_self⟩

/-! ### Methods -/

/-- The name of the method for an operation is the identifier of some text. -/
theorem exists_sanitize_eq_ofOperation (identifier : Option String) (verb : Verb) (path : String) :
    ∃ text, sanitize text = ofOperation identifier verb path := by
  have fromPath : ∃ text, sanitize text = ofPath verb path := by
    unfold ofPath
    split
    · exact ⟨"root", by decide⟩
    · exact ⟨_, rfl⟩
  unfold ofOperation
  split
  · split
    · exact fromPath
    · exact ⟨_, rfl⟩
  · exact fromPath

end ApiSurface.Name
