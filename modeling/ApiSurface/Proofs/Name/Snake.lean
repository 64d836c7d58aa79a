/-
This file proves what a name in small words looks like and what it keeps of the text that it was made of.
Cutting a run moves nothing: its words, one behind the other, are the run in small letters. What is left
out is only what stands between the runs, and words without a letter, so every letter of the text comes
through in its place. A name in small words holds no capital; it is cut at its underscores alone and
consists of the very words that it shows, so making a name of it again changes nothing.
-/

import ApiSurface.Proofs.Name.Words

namespace ApiSurface.Name

/-! ### Letters -/

theorem flatten_runs (text : List Char) : (runs text).flatten = text.filter Text.isAlphanumeric := by
  rw [runs, List.flatten_filter_not_isEmpty, Text.flatten_splitOnP]
  simp

theorem flatten_cutRun (word rest : List Char) (previous : Char) :
    (cutRun word previous rest).flatten = word ++ Text.lower rest := by
  induction rest generalizing word previous with
  | nil => simp [cutRun, Text.lower]
  | cons first rest inductionHypothesis =>
    unfold cutRun
    split <;> simp [inductionHypothesis, Text.lower]

/-- The words of a run, one behind the other, are the run in small letters. -/
theorem flatten_wordsOfRun (run : List Char) : (wordsOfRun run).flatten = Text.lower run := by
  cases run with
  | nil => rfl
  | cons first rest => exact flatten_cutRun [first.toLower] rest first

theorem flatten_words (text : List Char) :
    ((runs text).flatMap wordsOfRun).flatten = Text.lower (text.filter Text.isAlphanumeric) := by
  rw [← flatten_runs]
  induction runs text with
  | nil => rfl
  | cons run rest inductionHypothesis =>
    rw [List.flatMap_cons, List.flatten_append, flatten_wordsOfRun, inductionHypothesis]
    simp [Text.lower]

theorem isLetter_toLower {character : Char} (known : Text.isAlphanumeric character = true) :
    Text.isLetter character.toLower = Text.isLetter character :=
  beq_iff_eq.mp (Text.of_isAlphanumeric
    (fun character => Text.isLetter character.toLower == Text.isLetter character) (by decide) known)

/-- The letters of the words of a text are the letters of the text. -/
theorem filter_isLetter_flatten_words (text : List Char) :
    ((runs text).flatMap wordsOfRun).flatten.filter Text.isLetter =
      Text.lower (text.filter Text.isLetter) := by
  have same : ∀ character ∈ text.filter Text.isAlphanumeric,
      (Text.isLetter ∘ Char.toLower) character = Text.isLetter character := by
    intro character member
    exact isLetter_toLower (List.mem_filter.mp member).2
  have inside : ∀ character ∈ text,
      (Text.isLetter character && Text.isAlphanumeric character) = Text.isLetter character := by
    intro character _
    cases letter : Text.isLetter character <;> simp [Text.isAlphanumeric, letter]
  rw [flatten_words, Text.lower, List.filter_map, List.filter_congr same, List.filter_filter,
    List.filter_congr inside, Text.lower]

theorem filter_isLetter_eq_nil {word : List Char} (digits : word.all Text.isDigit = true) :
    word.filter Text.isLetter = [] := by
  rw [List.filter_eq_nil_iff]
  intro character member
  have digit := List.all_eq_true.mp digits character member
  have known : Text.isAlphanumeric character = true := by
    rw [Text.isAlphanumeric, digit, Bool.or_true]
  rw [Text.isLetter_eq_not_isDigit known, digit]
  exact Bool.false_ne_true

/-- Leaving out words without a letter leaves out no letter. -/
theorem filter_isLetter_flatten_filter (words : List (List Char)) :
    (words.filter fun word => !word.all Text.isDigit).flatten.filter Text.isLetter =
      words.flatten.filter Text.isLetter := by
  induction words with
  | nil => rfl
  | cons word rest inductionHypothesis =>
    rw [List.flatten_cons, List.filter_append, ← inductionHypothesis]
    cases digits : word.all Text.isDigit with
    | false => simp [digits]
    | true => simp [digits, filter_isLetter_eq_nil digits]

/-- Joining words by underscores adds no letter. -/
theorem filter_isLetter_intercalate (words : List (List Char)) :
    (['_'].intercalate words).filter Text.isLetter = words.flatten.filter Text.isLetter := by
  have underscore : Text.isLetter '_' = false := by decide
  induction words with
  | nil => rfl
  | cons word rest inductionHypothesis =>
    cases rest with
    | nil => rw [List.intercalate_singleton, List.flatten_singleton]
    | cons next others =>
      rw [List.intercalate_cons_cons, List.flatten_cons, List.filter_append, List.filter_append,
        List.filter_append, inductionHypothesis]
      simp [underscore]

theorem toList_snake (text : String) :
    (snake text).toList = ['_'].intercalate (letteredWords text.toList) :=
  String.toList_ofList

theorem filter_isLetter_snake (text : String) :
    (snake text).toList.filter Text.isLetter = Text.lower (text.toList.filter Text.isLetter) := by
  rw [toList_snake, filter_isLetter_intercalate, letteredWords, filter_isLetter_flatten_filter,
    filter_isLetter_flatten_words]

/-! ### Names of words with letters -/

/-- A name whose words hold a letter each, with one underscore between each two. The empty name is the one
without words. -/
def IsLettered (name : String) : Prop :=
  ∃ words, (∀ word ∈ words, IsWord word ∧ ∃ character ∈ word, Text.isLetter character = true) ∧
    name.toList = ['_'].intercalate words

theorem exists_isLetter_of_not_all_isDigit {word : List Char} (isWord : IsWord word)
    (lettered : word.all Text.isDigit = false) :
    ∃ character ∈ word, Text.isLetter character = true := by
  obtain ⟨character, member, noDigit⟩ := List.all_eq_false.mp lettered
  refine ⟨character, member, ?_⟩
  rw [Text.isLetter_eq_not_isDigit (isAlphanumeric_of_isSmall_or_isDigit (isWord.2 _ member)),
    Bool.not_eq_true', Bool.eq_false_iff]
  exact noDigit

theorem isLettered_snake (text : String) : IsLettered (snake text) := by
  refine ⟨letteredWords text.toList, fun word member => ?_, toList_snake text⟩
  have isWord := isWord_of_mem_letteredWords member
  refine ⟨isWord, exists_isLetter_of_not_all_isDigit isWord ?_⟩
  simpa using (List.mem_filter.mp member).2

/-- The characters of a name in small words that are no digits and no underscores are its letters. -/
theorem IsLettered.filter_eq {name : String} (lettered : IsLettered name) :
    (name.toList.filter fun character => !(Text.isDigit character || character == '_')) =
      name.toList.filter Text.isLetter := by
  obtain ⟨words, each, whole⟩ := lettered
  refine List.filter_congr fun character member => ?_
  rw [whole] at member
  rcases Text.of_mem_intercalate member with rfl | ⟨word, inside, there⟩
  · decide
  · have plain := (each word inside).1.2 character there
    rw [Text.isLetter_eq_not_isDigit (isAlphanumeric_of_isSmall_or_isDigit plain),
      beq_false_of_ne (ne_underscore_of_plain plain), Bool.or_false]

/-! ### Names of names -/

/-- A run without capitals is not cut. -/
theorem cutRun_of_plain {rest : List Char}
    (plain : ∀ character ∈ rest, (Text.isSmall character || Text.isDigit character) = true)
    (word : List Char) (previous : Char) : cutRun word previous rest = [word ++ rest] := by
  induction rest generalizing word previous with
  | nil => rw [cutRun, List.append_nil]
  | cons first others inductionHypothesis =>
    obtain ⟨plainFirst, plainOthers⟩ := List.forall_mem_cons.mp plain
    have small : Text.isCapital first = false ∧ first.toLower = first := by
      have both := of_isSmall_or_isDigit
        (fun first => !Text.isCapital first && first.toLower == first) (by decide) plainFirst
      simpa using both
    have inside : isBoundary word previous first others = false := by
      rw [isBoundary, small.1, Bool.false_and]
    rw [cutRun, inside, if_neg Bool.false_ne_true, small.2, inductionHypothesis plainOthers,
      List.append_assoc, List.singleton_append]

theorem wordsOfRun_of_isWord {word : List Char} (isWord : IsWord word) : wordsOfRun word = [word] := by
  obtain ⟨filled, plain⟩ := isWord
  cases word with
  | nil => exact absurd rfl filled
  | cons first rest =>
    obtain ⟨plainFirst, plainRest⟩ := List.forall_mem_cons.mp plain
    have small : first.toLower = first :=
      beq_iff_eq.mp (of_isSmall_or_isDigit (fun first => first.toLower == first) (by decide) plainFirst)
    rw [wordsOfRun, cutRun_of_plain plainRest, small, List.singleton_append]

theorem runs_intercalate {words : List (List Char)} (each : ∀ word ∈ words, IsWord word) :
    runs (['_'].intercalate words) = words := by
  cases words with
  | nil => rfl
  | cons first rest =>
    obtain ⟨isFirst, others⟩ := List.forall_mem_cons.mp each
    rw [intercalate_underscore, runs_joined isFirst others]

/-- A name of words that hold a letter each is its own name in small words. -/
theorem IsLettered.snake_eq {name : String} (lettered : IsLettered name) : snake name = name := by
  obtain ⟨words, each, whole⟩ := lettered
  have cut : words.flatMap wordsOfRun = words := by
    rw [List.flatMap_congr fun word member => wordsOfRun_of_isWord (each word member).1]
    exact List.flatMap_singleton' words
  have kept : words.filter (fun word => !word.all Text.isDigit) = words := by
    refine List.filter_eq_self.mpr fun word member => ?_
    obtain ⟨isWord, character, inside, letter⟩ := each word member
    rw [Bool.not_eq_true', List.all_eq_false]
    refine ⟨character, inside, fun digit => ?_⟩
    rw [Text.isLetter_eq_not_isDigit (isAlphanumeric_of_isSmall_or_isDigit (isWord.2 _ inside)),
      digit] at letter
    exact Bool.false_ne_true letter
  rw [← String.toList_inj, toList_snake, letteredWords, whole,
    runs_intercalate fun word member => (each word member).1, cut, kept]

/-- A name in small words consists of words that hold a letter each, is its own name in small words, and
holds the letters of the text in their order with nothing but digits and underscores in between. -/
theorem snake_settles (text : String) :
    IsLettered (snake text) ∧ snake (snake text) = snake text ∧
      ((snake text).toList.filter fun character =>
        !(Text.isDigit character || character == '_')) =
          Text.lower (text.toList.filter Text.isLetter) := by
  have lettered := isLettered_snake text
  exact ⟨lettered, lettered.snake_eq, lettered.filter_eq.trans (filter_isLetter_snake text)⟩

example : ["getHTTPResponse", "getAPet", "listV2Items", "users-2-list", "get2FACodes", "123"].map snake =
    ["get_http_response", "get_a_pet", "list_v2_items", "users_list", "get2_fa_codes", ""] := by decide

end ApiSurface.Name
