/-
This file proves when two names in small words become one name with capitals. Every word that starts
with a letter puts a capital into the name, and there are no others, so it can be seen where such a word
starts. A word that starts with a digit leaves no trace of where it starts. What a name with capitals
tells is therefore the name in small words up to the underscores that stand in front of digits.
-/

import ApiSurface.Name.Words
import ApiSurface.Proofs.Text.Case

namespace ApiSurface.Name

/-! ### Words -/

/-- A word in small letters and digits. -/
def IsWord (word : List Char) : Prop :=
  word ≠ [] ∧ ∀ character ∈ word, (Text.isSmall character || Text.isDigit character) = true

theorem isAlphanumeric_of_isSmall_or_isDigit {character : Char}
    (plain : (Text.isSmall character || Text.isDigit character) = true) :
    Text.isAlphanumeric character = true := by
  simp only [Text.isSmall, Text.isAlphanumeric, Text.isLetter, Bool.or_eq_true] at plain ⊢
  exact plain.imp_left Or.inl

/-- What holds for every small letter and every digit can be checked on the codes of ASCII. -/
theorem of_isSmall_or_isDigit (holds : Char → Bool)
    (checked : (List.range 0x80).all (fun code => !Text.isAlphanumeric (Char.ofNat code) ||
      (!(Text.isSmall (Char.ofNat code) || Text.isDigit (Char.ofNat code)) ||
        holds (Char.ofNat code))) = true)
    {character : Char} (plain : (Text.isSmall character || Text.isDigit character) = true) :
    holds character = true := by
  have either := Text.of_isAlphanumeric
    (fun character => !(Text.isSmall character || Text.isDigit character) || holds character)
    checked (isAlphanumeric_of_isSmall_or_isDigit plain)
  simpa only [plain, Bool.not_true, Bool.false_or] using either

theorem ne_underscore_of_plain {character : Char}
    (plain : (Text.isSmall character || Text.isDigit character) = true) : character ≠ '_' := by
  rintro rfl
  exact absurd plain (by decide)

theorem IsWord.underscore_notMem {word : List Char} (isWord : IsWord word) : '_' ∉ word :=
  fun member => ne_underscore_of_plain (isWord.2 _ member) rfl

theorem toLower_plain {character : Char} (known : Text.isAlphanumeric character = true) :
    (Text.isSmall character.toLower || Text.isDigit character.toLower) = true :=
  Text.of_isAlphanumeric
    (fun character => Text.isSmall character.toLower || Text.isDigit character.toLower) (by decide)
    known

theorem isWord_singleton {character : Char} (known : Text.isAlphanumeric character = true) :
    IsWord [character.toLower] := by
  refine ⟨List.cons_ne_nil _ _, fun other member => ?_⟩
  rw [List.mem_singleton.mp member]
  exact toLower_plain known

theorem IsWord.append {first second : List Char} (isWord : IsWord first) (further : IsWord second) :
    IsWord (first ++ second) := by
  refine ⟨List.append_ne_nil_of_left_ne_nil isWord.1 _, fun character member => ?_⟩
  exact (List.mem_append.mp member).elim (isWord.2 character) (further.2 character)

theorem isWord_of_mem_cutRun {word rest cut : List Char} {previous : Char} (isWord : IsWord word)
    (known : ∀ character ∈ rest, Text.isAlphanumeric character = true)
    (member : cut ∈ cutRun word previous rest) : IsWord cut := by
  induction rest generalizing word previous with
  | nil => rwa [List.mem_singleton.mp member]
  | cons first rest inductionHypothesis =>
    obtain ⟨knownFirst, knownRest⟩ := List.forall_mem_cons.mp known
    unfold cutRun at member
    split at member
    · rcases List.mem_cons.mp member with rfl | later
      · exact isWord
      · exact inductionHypothesis (isWord_singleton knownFirst) knownRest later
    · exact inductionHypothesis (isWord.append (isWord_singleton knownFirst)) knownRest member

theorem mem_runs {text run : List Char} (member : run ∈ runs text) :
    run ≠ [] ∧ ∀ character ∈ run, Text.isAlphanumeric character = true := by
  obtain ⟨cut, filled⟩ := List.mem_filter.mp member
  refine ⟨by simpa using filled, fun character inside => ?_⟩
  simpa using Text.not_of_mem_splitOnP cut character inside

theorem isWord_of_mem_letteredWords {text word : List Char} (member : word ∈ letteredWords text) :
    IsWord word := by
  obtain ⟨run, isRun, cut⟩ := List.mem_flatMap.mp (List.mem_filter.mp member).1
  obtain ⟨filled, known⟩ := mem_runs isRun
  cases run with
  | nil => exact absurd rfl filled
  | cons first rest =>
    obtain ⟨knownFirst, knownRest⟩ := List.forall_mem_cons.mp known
    exact isWord_of_mem_cutRun (isWord_singleton knownFirst) knownRest cut

/-! ### Names in small words -/

/-- A name of at least one word, with an underscore between each two. -/
def IsSnake (name : String) : Prop :=
  ∃ (first : List Char) (rest : List (List Char)), IsWord first ∧ (∀ word ∈ rest, IsWord word) ∧
    name.toList = first ++ rest.flatMap ('_' :: ·)

theorem intercalate_underscore (first : List Char) (rest : List (List Char)) :
    ['_'].intercalate (first :: rest) = first ++ rest.flatMap ('_' :: ·) := by
  induction rest generalizing first with
  | nil => simp
  | cons next rest inductionHypothesis =>
    rw [List.intercalate_cons_cons, inductionHypothesis, List.flatMap_cons, List.append_assoc,
      List.singleton_append, List.cons_append]

theorem isSnake_snake {text : String} (named : snake text ≠ "") : IsSnake (snake text) := by
  have whole : (snake text).toList = ['_'].intercalate (letteredWords text.toList) :=
    String.toList_ofList
  have each (word : List Char) (member : word ∈ letteredWords text.toList) : IsWord word :=
    isWord_of_mem_letteredWords member
  cases words : letteredWords text.toList with
  | nil =>
    rw [words] at whole
    exact absurd (String.toList_inj.mp whole) named
  | cons first rest =>
    rw [words, intercalate_underscore] at whole
    rw [words] at each
    exact ⟨first, rest, each first List.mem_cons_self,
      fun word member => each word (List.mem_cons_of_mem _ member), whole⟩

theorem runs_of_isWord {word : List Char} (isWord : IsWord word) : runs word = [word] := by
  have solid (character : Char) (member : character ∈ word) :
      (!Text.isAlphanumeric character) = false := by
    rw [isAlphanumeric_of_isSmall_or_isDigit (isWord.2 character member), Bool.not_true]
  rw [runs, List.splitOnP_eq_singleton solid]
  exact List.filter_cons_of_pos (by simpa using isWord.1)

/-- The runs of a name in small words are its words. -/
theorem runs_joined {first : List Char} {rest : List (List Char)} (isWord : IsWord first)
    (each : ∀ word ∈ rest, IsWord word) :
    runs (first ++ rest.flatMap ('_' :: ·)) = first :: rest := by
  induction rest generalizing first with
  | nil =>
    rw [List.flatMap_nil, List.append_nil]
    exact runs_of_isWord isWord
  | cons next rest inductionHypothesis =>
    obtain ⟨isNext, others⟩ := List.forall_mem_cons.mp each
    have further := inductionHypothesis isNext others
    have single := runs_of_isWord isWord
    unfold runs at further single ⊢
    rw [List.flatMap_cons, List.cons_append, List.splitOnP_append_cons _ _ (by decide),
      List.filter_append, single, further, List.singleton_append]

/-! ### Names with capitals -/

theorem toList_pascal (text : String) :
    (pascal text).toList = (runs text.toList).flatMap capitalized :=
  String.toList_ofList

theorem isAlphanumeric_of_mem_pascal {text : String} {character : Char}
    (member : character ∈ (pascal text).toList) : Text.isAlphanumeric character = true := by
  rw [toList_pascal] at member
  obtain ⟨run, isRun, inside⟩ := List.mem_flatMap.mp member
  obtain ⟨filled, known⟩ := mem_runs isRun
  cases run with
  | nil => exact absurd rfl filled
  | cons first rest =>
    obtain ⟨knownFirst, knownRest⟩ := List.forall_mem_cons.mp known
    rcases List.mem_cons.mp inside with rfl | later
    · exact Text.isAlphanumeric_toUpper knownFirst
    · exact knownRest character later

/-- A name with an underscore left out wherever a digit follows. -/
def closedUp : List Char → List Char
  | [] => []
  | first :: rest =>
    if first = '_' ∧ rest.head?.any Text.isDigit then closedUp rest else first :: closedUp rest

/-- What a word contributes to a name behind the first one, apart from underscores in front of digits. -/
def marked (word : List Char) : List Char :=
  if word.head?.any Text.isDigit then word else '_' :: word

theorem closedUp_append {word : List Char} (solid : '_' ∉ word) (rest : List Char) :
    closedUp (word ++ rest) = word ++ closedUp rest := by
  induction word with
  | nil => rfl
  | cons first others inductionHypothesis =>
    rw [List.mem_cons, not_or] at solid
    rw [List.cons_append, closedUp, if_neg fun both => solid.1 both.1.symm,
      inductionHypothesis solid.2, List.cons_append]

theorem closedUp_joined {words : List (List Char)} (each : ∀ word ∈ words, IsWord word) :
    closedUp (words.flatMap ('_' :: ·)) = words.flatMap marked := by
  induction words with
  | nil => rfl
  | cons word rest inductionHypothesis =>
    obtain ⟨isWord, others⟩ := List.forall_mem_cons.mp each
    have head : (word ++ rest.flatMap ('_' :: ·)).head? = word.head? :=
      List.head?_append_of_ne_nil _ isWord.1
    rw [List.flatMap_cons, List.flatMap_cons, List.cons_append, closedUp, head,
      closedUp_append isWord.underscore_notMem, inductionHypothesis others, marked]
    by_cases digit : word.head?.any Text.isDigit = true <;> simp [digit]

/-- A character of a name with capitals, as it stands in a name in small words. -/
def lowered (character : Char) : List Char :=
  if Text.isCapital character then ['_', character.toLower] else [character]

theorem flatMap_lowered {word : List Char}
    (plain : ∀ character ∈ word, (Text.isSmall character || Text.isDigit character) = true) :
    word.flatMap lowered = word := by
  induction word with
  | nil => rfl
  | cons first rest inductionHypothesis =>
    obtain ⟨plainFirst, plainRest⟩ := List.forall_mem_cons.mp plain
    have small := of_isSmall_or_isDigit (fun first => !Text.isCapital first) (by decide) plainFirst
    rw [List.flatMap_cons, inductionHypothesis plainRest, lowered, if_neg (by simpa using small),
      List.singleton_append]

/-- A word that starts with a letter can be told from its capital. -/
theorem flatMap_lowered_capitalized {word : List Char} (isWord : IsWord word) :
    (capitalized word).flatMap lowered = marked word := by
  obtain ⟨filled, plain⟩ := isWord
  cases word with
  | nil => exact absurd rfl filled
  | cons first rest =>
    obtain ⟨plainFirst, plainRest⟩ := List.forall_mem_cons.mp plain
    have start : lowered first.toUpper = if Text.isDigit first then [first] else ['_', first] :=
      beq_iff_eq.mp (of_isSmall_or_isDigit
        (fun first => lowered first.toUpper == if Text.isDigit first then [first] else ['_', first])
        (by decide) plainFirst)
    rw [capitalized, List.flatMap_cons, flatMap_lowered plainRest, start, marked, List.head?_cons,
      Option.any_some]
    split <;> rfl

/-- The name in small words that a name with capitals shows. -/
def takenApart : List Char → List Char
  | [] => []
  | first :: rest => first.toLower :: rest.flatMap lowered

theorem takenApart_pascal {name : String} (isSnake : IsSnake name) :
    takenApart (pascal name).toList = closedUp name.toList := by
  obtain ⟨first, rest, isWord, each, whole⟩ := isSnake
  rw [toList_pascal, whole, runs_joined isWord each, closedUp_append isWord.underscore_notMem,
    closedUp_joined each, List.flatMap_cons]
  obtain ⟨filled, plain⟩ := isWord
  cases first with
  | nil => exact absurd rfl filled
  | cons start others =>
    obtain ⟨plainStart, plainOthers⟩ := List.forall_mem_cons.mp plain
    have small : start.toUpper.toLower = start :=
      beq_iff_eq.mp (of_isSmall_or_isDigit (fun start => start.toUpper.toLower == start) (by decide)
        plainStart)
    have further : (rest.flatMap capitalized).flatMap lowered = rest.flatMap marked := by
      rw [List.flatMap_assoc]
      exact List.flatMap_congr fun word member => flatMap_lowered_capitalized (each word member)
    rw [capitalized, List.cons_append, takenApart, List.flatMap_append, small, further,
      flatMap_lowered plainOthers, List.cons_append]

/-- A name in small words with a capital instead of each underscore and what follows it. -/
def raised : List Char → List Char
  | [] => []
  | '_' :: first :: rest => first.toUpper :: raised rest
  | first :: rest => first :: raised rest

theorem raised_append {word : List Char} (solid : '_' ∉ word) (rest : List Char) :
    raised (word ++ rest) = word ++ raised rest := by
  induction word with
  | nil => rfl
  | cons first others inductionHypothesis =>
    rw [List.mem_cons, not_or] at solid
    rw [List.cons_append, raised, inductionHypothesis solid.2, List.cons_append]
    exact fun _ _ same => absurd same.symm solid.1

theorem raised_marked_append {word : List Char} (isWord : IsWord word) (rest : List Char) :
    raised (marked word ++ rest) = capitalized word ++ raised rest := by
  have solid := isWord.underscore_notMem
  obtain ⟨filled, plain⟩ := isWord
  cases word with
  | nil => exact absurd rfl filled
  | cons first others =>
    have kept : Text.isDigit first = true → first.toUpper = first := fun digit => by
      have either := of_isSmall_or_isDigit
        (fun first => !Text.isDigit first || first.toUpper == first) (by decide)
        (plain first List.mem_cons_self)
      simpa only [digit, Bool.not_true, Bool.false_or, beq_iff_eq] using either
    rw [marked, List.head?_cons, Option.any_some, capitalized]
    split
    · next digit => rw [raised_append solid, kept digit]
    · rw [List.cons_append, List.cons_append, raised,
        raised_append fun member => solid (List.mem_cons_of_mem _ member), List.cons_append]

theorem raised_flatMap_marked {words : List (List Char)} (each : ∀ word ∈ words, IsWord word) :
    raised (words.flatMap marked) = words.flatMap capitalized := by
  induction words with
  | nil => rfl
  | cons word rest inductionHypothesis =>
    obtain ⟨isWord, others⟩ := List.forall_mem_cons.mp each
    rw [List.flatMap_cons, raised_marked_append isWord, inductionHypothesis others, List.flatMap_cons]

theorem capitalized_append {word : List Char} (filled : word ≠ []) (rest : List Char) :
    capitalized (word ++ rest) = capitalized word ++ rest := by
  cases word with
  | nil => exact absurd rfl filled
  | cons first others => rfl

theorem capitalized_raised_closedUp {name : String} (isSnake : IsSnake name) :
    capitalized (raised (closedUp name.toList)) = (pascal name).toList := by
  obtain ⟨first, rest, isWord, each, whole⟩ := isSnake
  rw [toList_pascal, whole, runs_joined isWord each, closedUp_append isWord.underscore_notMem,
    closedUp_joined each, raised_append isWord.underscore_notMem, raised_flatMap_marked each,
    capitalized_append isWord.1, List.flatMap_cons]

/-- Names in small words become one name with capitals exactly if they differ at most in underscores in
front of digits. -/
theorem pascal_eq_iff {first second : String} (isFirst : IsSnake first) (isSecond : IsSnake second) :
    pascal first = pascal second ↔ closedUp first.toList = closedUp second.toList := by
  constructor
  · intro same
    rw [← takenApart_pascal isFirst, same, takenApart_pascal isSecond]
  · intro same
    rw [← String.toList_inj, ← capitalized_raised_closedUp isFirst, same,
      capitalized_raised_closedUp isSecond]

end ApiSurface.Name
