/-
This file proves into which tokens the indented form of a value is cut. Texts are read back as they were
written, and a number is read up to where its text ends, because what follows it is a comma or a line
feed. Whether a number reads back as itself depends on rounding, so it is asked of each number.
-/

import ApiSurface.Json.Token
import ApiSurface.Proofs.Json.Nesting
import ApiSurface.Proofs.Text.Blank

namespace ApiSurface.Json

/-! ### Texts -/

theorem hexValue?_hexDigit : ∀ value < 16, hexValue? (hexDigit value) = some value := by
  decide

theorem hexUnit?_control {code : Nat} (small : code < 0x20) :
    hexUnit? '0' '0' (hexDigit (code / 16)) (hexDigit (code % 16)) = some code := by
  rw [hexUnit?, hexValue?_hexDigit _ (by omega), hexValue?_hexDigit _ (by omega)]
  exact congrArg some (by show ((0 * 16 + 0) * 16 + code / 16) * 16 + code % 16 = code; omega)

/-- A character is written as it is, or as a letter that stands for it, or by its code. -/
theorem escaped_cases (character : Char) :
    (escaped character = [character] ∧ ¬ character.toNat < 0x20 ∧ character ≠ '"' ∧ character ≠ '\\') ∨
      (∃ letter, escaped character = ['\\', letter] ∧ letter ≠ 'u' ∧
        unescaped? letter = some character) ∨
      (escaped character =
          ['\\', 'u', '0', '0', hexDigit (character.toNat / 16), hexDigit (character.toNat % 16)] ∧
        character.toNat < 0x20) := by
  fun_cases escaped character with
  | case8 _ _ _ _ _ _ _ control => exact .inr (.inr ⟨rfl, control⟩)
  | case9 mark backslash _ _ _ _ _ control => exact .inl ⟨rfl, control, mark, backslash⟩
  | _ => exact .inr (.inl ⟨_, rfl, by decide, by subst_vars; rfl⟩)

/-- A letter that stands for a character is not a control character. -/
theorem space_le_of_unescaped? {letter character : Char} (stands : unescaped? letter = some character) :
    0x20 ≤ letter.toNat := by
  unfold unescaped? at stands
  split at stands
  all_goals first | decide | cases stands

/-- No control character is left in a text that is written. -/
theorem space_le_of_mem_escaped {character other : Char} (member : other ∈ escaped character) :
    0x20 ≤ other.toNat := by
  have digit : ∀ value < 16, 0x20 ≤ (hexDigit value).toNat := by decide
  rcases escaped_cases character with ⟨bare, large, -⟩ | ⟨letter, short, -, stands⟩ | ⟨long, small⟩
  · rw [bare, List.mem_singleton] at member
    rw [member]
    exact Nat.le_of_not_lt large
  · rw [short] at member
    rcases List.mem_pair.mp member with rfl | rfl
    · decide
    · exact space_le_of_unescaped? stands
  · rw [long] at member
    simp only [List.mem_cons, List.not_mem_nil, or_false] at member
    rcases member with rfl | rfl | rfl | rfl | rfl | rfl
    · decide
    · decide
    · decide
    · decide
    · exact digit _ (by omega)
    · exact digit _ (Nat.mod_lt _ (by decide))

theorem readQuoted_escaped (character : Char) (rest : List Char) :
    readQuoted (escaped character ++ rest) =
      (readQuoted rest).map fun (read, after) => (character :: read, after) := by
  rcases escaped_cases character with
    ⟨bare, large, noMark, noBackslash⟩ | ⟨letter, short, noCode, stands⟩ | ⟨long, small⟩
  · rw [bare, List.singleton_append, readQuoted, if_neg (by simp [large, noBackslash])]
    · cases readQuoted rest <;> rfl
    · exact noMark
    · exact fun _ _ _ _ _ same => absurd same noBackslash
    · exact fun _ _ same => absurd same noBackslash
  · rw [short, List.cons_append, List.cons_append, List.nil_append, readQuoted, stands]
    · cases readQuoted rest <;> rfl
    · exact fun _ _ _ _ _ same => absurd same noCode
  · simp only [long, List.cons_append, List.nil_append]
    rw [readQuoted, hexUnit?_control small, Option.bind_eq_bind, Option.bind_some, if_pos
      (by rw [decide_eq_true (by omega : character.toNat < 0xD800)]; rfl), Char.ofNat_toNat]
    cases readQuoted rest <;> rfl

/-- A text reads back up to its closing mark. -/
theorem readQuoted_flatMap_escaped (text rest : List Char) :
    readQuoted (text.flatMap escaped ++ '"' :: rest) = some (text, rest) := by
  induction text with
  | nil => rw [List.flatMap_nil, List.nil_append, readQuoted]
  | cons first others inductionHypothesis =>
    rw [List.flatMap_cons, List.append_assoc, readQuoted_escaped, inductionHypothesis, Option.map_some]

/-- A character that is put in front of what was read changes nothing behind it. -/
theorem exists_of_put {found : Option (List Char × List Char)} {character : Char}
    {read after : List Char}
    (put : (do let (others, behind) ← found; return (character :: others, behind)) = some (read, after)) :
    ∃ others, found = some (others, after) := by
  obtain ⟨⟨others, behind⟩, here, made⟩ := Option.bind_eq_some_iff.mp put
  obtain ⟨-, rfl⟩ := Prod.mk.inj (Option.some.inj made)
  exact ⟨others, here⟩

/-- What follows a text that was read is shorter. -/
theorem length_readQuoted_lt {text read after : List Char}
    (found : readQuoted text = some (read, after)) : after.length < text.length := by
  fun_induction readQuoted text generalizing read after with
  | case1 => cases found
  | case2 rest =>
    obtain ⟨-, rfl⟩ := Prod.mk.inj (Option.some.inj found)
    exact Nat.lt_succ_self _
  | case3 a b c d rest single pair =>
    obtain ⟨unit, -, found⟩ := Option.bind_eq_some_iff.mp found
    split at found
    · obtain ⟨_, further⟩ := exists_of_put found
      have shorter := single further
      simp only [List.length_cons]
      omega
    · split at found
      · obtain ⟨low, -, found⟩ := Option.bind_eq_some_iff.mp found
        split at found
        · obtain ⟨_, further⟩ := exists_of_put found
          have shorter := pair further
          simp only [List.length_cons]
          omega
        · cases found
      · cases found
  | case4 letter rest _ inductionHypothesis =>
    obtain ⟨_, -, found⟩ := Option.bind_eq_some_iff.mp found
    obtain ⟨_, further⟩ := exists_of_put found
    exact Nat.lt_succ_of_lt (Nat.lt_succ_of_lt (inductionHypothesis further))
  | case5 => cases found
  | case6 character rest _ _ _ _ inductionHypothesis =>
    obtain ⟨_, further⟩ := exists_of_put found
    exact Nat.lt_succ_of_lt (inductionHypothesis further)

theorem readToken_quoted (text : String) (rest : List Char) :
    readToken '"' (text.toList.flatMap escaped ++ '"' :: rest) = some (.scalar (.text text), rest) := by
  show (readQuoted _).map _ = _
  rw [readQuoted_flatMap_escaped, Option.map_some]
  dsimp only
  rw [String.ofList_toList]

/-! ### Numbers -/

/-- Whether a character can go on with a number. -/
def continuesNumber (character : Char) : Bool :=
  Text.isDigit character || character == '.' || character == 'e' || character == 'E'

/-- What follows a number without belonging to it. -/
def StopsNumber (rest : List Char) : Prop :=
  ∀ first ∈ rest.head?, continuesNumber first = false

theorem stopsNumber_cons {first : Char} (stops : continuesNumber first = false) (rest : List Char) :
    StopsNumber (first :: rest) := by
  intro other member
  obtain rfl := Option.some.inj member
  exact stops

/-- The sign of an exponent stands in front of all that follows, so it is seen as soon as there is one
character. -/
theorem exponentSign_append {text : List Char} (filled : text ≠ []) (rest : List Char) :
    exponentSign (text ++ rest) = ((exponentSign text).1, (exponentSign text).2 ++ rest) := by
  obtain ⟨first, others, rfl⟩ := List.exists_cons_of_ne_nil filled
  by_cases minus : first = '-'
  · rw [minus]
    rfl
  by_cases plus : first = '+'
  · rw [plus]
    rfl
  have unsigned (behind : List Char) : exponentSign (first :: behind) = (false, first :: behind) :=
    exponentSign.eq_3 _ (fun _ same => minus (List.cons.inj same).1)
      fun _ same => plus (List.cons.inj same).1
  rw [List.cons_append, unsigned, unsigned]
  rfl

section

variable {rest : List Char} (stops : StopsNumber rest)
include stops

theorem StopsNumber.not_digit : ∀ first ∈ rest.head?, Text.isDigit first = false := by
  intro first member
  have no := stops first member
  rw [continuesNumber, Bool.or_eq_false_iff, Bool.or_eq_false_iff, Bool.or_eq_false_iff] at no
  exact no.1.1.1

/-- The digits at the front of a text end with the text, at the latest. -/
theorem span_digits_append (text : List Char) :
    (text ++ rest).takeWhile Text.isDigit = text.takeWhile Text.isDigit ∧
      (text ++ rest).dropWhile Text.isDigit = text.dropWhile Text.isDigit ++ rest := by
  induction text with
  | nil =>
    have noDigit := stops.not_digit
    cases rest with
    | nil => exact ⟨rfl, rfl⟩
    | cons first others =>
      rw [List.nil_append, List.takeWhile_cons, List.dropWhile_cons, noDigit first rfl]
      exact ⟨rfl, rfl⟩
  | cons first others inductionHypothesis =>
    rw [List.cons_append, List.takeWhile_cons, List.dropWhile_cons, List.takeWhile_cons,
      List.dropWhile_cons]
    split
    · exact ⟨congrArg (first :: ·) inductionHypothesis.1, inductionHypothesis.2⟩
    · exact ⟨rfl, rfl⟩

theorem readFraction_append {text after : List Char} {fraction : Option (List Char)}
    (read : readFraction text = some (fraction, after)) :
    readFraction (text ++ rest) = some (fraction, after ++ rest) := by
  cases text with
  | nil =>
    obtain ⟨rfl, rfl⟩ := Prod.mk.inj (Option.some.inj read)
    refine readFraction.eq_2 _ fun others same => ?_
    have no := stops '.' (by rw [← List.nil_append rest, same]; rfl)
    exact absurd no (by decide)
  | cons first others =>
    by_cases point : first = '.'
    · rw [point, List.cons_append, readFraction]
      rw [point, readFraction] at read
      rw [(span_digits_append stops others).1, (span_digits_append stops others).2]
      split at read
      · cases read
      · next filled =>
        obtain ⟨rfl, rfl⟩ := Prod.mk.inj (Option.some.inj read)
        rw [if_neg filled]
    · have other : ∀ after, first :: others = '.' :: after → False :=
        fun after same => point (List.cons.inj same).1
      rw [readFraction.eq_2 _ other] at read
      obtain ⟨rfl, rfl⟩ := Prod.mk.inj (Option.some.inj read)
      exact readFraction.eq_2 _ fun after same => point (List.cons.inj same).1

theorem readExponent_append {text after : List Char} {exponent : Option (Bool × List Char)}
    (read : readExponent text = some (exponent, after)) :
    readExponent (text ++ rest) = some (exponent, after ++ rest) := by
  cases text with
  | nil =>
    obtain ⟨rfl, rfl⟩ := Prod.mk.inj (Option.some.inj read)
    cases rest with
    | nil => rfl
    | cons mark others =>
      have no := stops mark rfl
      rw [continuesNumber, Bool.or_assoc, Bool.or_eq_false_iff] at no
      rw [List.nil_append, readExponent, if_neg (by rw [no.2]; exact Bool.false_ne_true)]
  | cons mark others =>
    rw [List.cons_append, readExponent]
    rw [readExponent] at read
    split at read
    · next isMark =>
      rw [if_pos isMark]
      by_cases filled : others = []
      · rw [filled] at read
        cases read
      · rw [exponentSign_append filled]
        dsimp only at read ⊢
        rw [(span_digits_append stops _).1, (span_digits_append stops _).2]
        split at read
        · cases read
        · next some =>
          obtain ⟨rfl, rfl⟩ := Prod.mk.inj (Option.some.inj read)
          rw [if_neg some]
    · next noMark =>
      obtain ⟨rfl, rfl⟩ := Prod.mk.inj (Option.some.inj read)
      rw [if_neg noMark, List.cons_append]

/-- A number is read in the same way whatever stops it. -/
theorem readNumeral_append {negative : Bool} {text after : List Char} {numeral : Numeral}
    (read : readNumeral negative text = some (numeral, after)) :
    readNumeral negative (text ++ rest) = some (numeral, after ++ rest) := by
  unfold readNumeral at read ⊢
  dsimp only at read ⊢
  rw [(span_digits_append stops text).1, (span_digits_append stops text).2]
  split at read
  · cases read
  · next good =>
    rw [if_neg good]
    obtain ⟨⟨fraction, behindFraction⟩, fractionRead, read⟩ := Option.bind_eq_some_iff.mp read
    obtain ⟨⟨exponent, behindExponent⟩, exponentRead, read⟩ := Option.bind_eq_some_iff.mp read
    obtain ⟨rfl, rfl⟩ := Prod.mk.inj (Option.some.inj read)
    rw [readFraction_append stops fractionRead]
    dsimp only [Option.bind_eq_bind, Option.bind_some]
    rw [readExponent_append stops exponentRead]
    rfl

theorem readNumber_append {negative : Bool} {text after : List Char} {token : Token}
    (read : readNumber negative text = some (token, after)) :
    readNumber negative (text ++ rest) = some (token, after ++ rest) := by
  obtain ⟨⟨numeral, behind⟩, found, read⟩ := Option.bind_eq_some_iff.mp read
  obtain ⟨number, rounded, read⟩ := Option.bind_eq_some_iff.mp read
  obtain ⟨rfl, rfl⟩ := Prod.mk.inj (Option.some.inj read)
  rw [readNumber, readNumeral_append stops found]
  dsimp only [Option.bind_eq_bind, Option.bind_some]
  rw [rounded]
  rfl

theorem readToken_append {first : Char} {text after : List Char} {number : Number}
    (read : readToken first text = some (.scalar (.number number), after)) :
    readToken first (text ++ rest) = some (.scalar (.number number), after ++ rest) := by
  unfold readToken at read ⊢
  split at read
  case h_7 =>
    obtain ⟨_, -, same⟩ := Option.map_eq_some_iff.mp read
    cases same
  case h_11 => exact readNumber_append stops read
  case h_12 => exact readNumber_append stops read
  all_goals first
    | cases read
    | obtain ⟨_, -, same⟩ := Option.map_eq_some_iff.mp read
      cases same

end

/-- The text of a number is read as that number. -/
def Number.ReadsBack (number : Number) : Prop :=
  ∃ first rest, number.text = first :: rest ∧
    readToken first rest = some (.scalar (.number number), [])

/-! ### Tokens -/

theorem readTokens_mono {fuel more : Nat} {text : List Char} {tokens : List Token}
    (read : readTokens fuel text = some tokens) (enough : fuel ≤ more) :
    readTokens more text = some tokens := by
  induction fuel generalizing more text tokens with
  | zero => cases read
  | succ fuel inductionHypothesis =>
    obtain ⟨more, rfl⟩ := Nat.exists_eq_add_of_le' (Nat.lt_of_lt_of_le (Nat.succ_pos fuel) enough)
    unfold readTokens at read ⊢
    split at read
    · exact read
    · obtain ⟨⟨token, after⟩, found, read⟩ := Option.bind_eq_some_iff.mp read
      obtain ⟨others, further, read⟩ := Option.bind_eq_some_iff.mp read
      rw [found, Option.bind_eq_bind, Option.bind_some]
      dsimp only
      rw [inductionHypothesis further (Nat.le_of_succ_le_succ enough)]
      exact read

/-- Blanks in front of a text do not matter. -/
theorem tokens?_append_of_spacing (blanks : List Char) {text : List Char}
    (spacing : ∀ blank ∈ blanks, isSpacing blank = true) {tokens : List Token}
    (read : tokens? text = some tokens) : tokens? (blanks ++ text) = some tokens := by
  have longer := readTokens_mono read
    (Nat.succ_le_succ (List.length_append ▸ Nat.le_add_left _ blanks.length))
  rw [tokens?, readTokens, List.dropWhile_append_of_pos spacing]
  rwa [readTokens] at longer

/-- A token in front of a text comes before the tokens of the text. -/
theorem tokens?_of_readToken {first : Char} (behind : List Char) {rest : List Char} {token : Token}
    (solid : isSpacing first = false) (found : readToken first (behind ++ rest) = some (token, rest))
    {tokens : List Token} (read : tokens? rest = some tokens) :
    tokens? (first :: (behind ++ rest)) = some (token :: tokens) := by
  have longer := readTokens_mono read (by
    show rest.length + 1 ≤ (first :: (behind ++ rest)).length
    rw [List.length_cons, List.length_append]
    omega)
  rw [tokens?, readTokens, List.dropWhile_cons_of_neg (by rw [solid]; exact Bool.false_ne_true)]
  dsimp only
  rw [found, Option.bind_eq_bind, Option.bind_some]
  dsimp only
  rw [longer]
  rfl

/-- No token starts with a blank. -/
theorem not_spacing_of_readToken {first : Char} {rest : List Char} {result : Token × List Char}
    (found : readToken first rest = some result) : isSpacing first = false := by
  refine Bool.eq_false_iff.mpr fun spacing => ?_
  simp only [isSpacing, Bool.or_eq_true, beq_iff_eq] at spacing
  rcases spacing with ((rfl | rfl) | rfl) | rfl <;> cases found

/-! ### Written values -/

mutual

/-- The tokens of a value. -/
def tokensOf : Json → List Token
  | .array [] => [.openArray, .closeArray]
  | .array (first :: rest) => .openArray :: (tokensOf first ++ (tokensOfItems rest ++ [.closeArray]))
  | .object [] => [.openObject, .closeObject]
  | .object ((key, value) :: rest) =>
    .openObject :: .scalar (.text key) :: .colon ::
      (tokensOf value ++ (tokensOfMembers rest ++ [.closeObject]))
  | scalar => [.scalar scalar]

/-- The tokens of further items. -/
def tokensOfItems : List Json → List Token
  | [] => []
  | item :: rest => .comma :: (tokensOf item ++ tokensOfItems rest)

/-- The tokens of further members. -/
def tokensOfMembers : List (String × Json) → List Token
  | [] => []
  | (key, value) :: rest =>
    .comma :: .scalar (.text key) :: .colon :: (tokensOf value ++ tokensOfMembers rest)

end

/-- Every number in a value reads back. -/
def HasReadableNumbers (value : Json) : Prop :=
  ∀ depth number, SitsBelow value depth (.number number) → number.ReadsBack

theorem HasReadableNumbers.inside {value : Json} (readable : value.HasReadableNumbers) {depth : Nat}
    {inner : Json} (below : SitsBelow value depth inner) : inner.HasReadableNumbers :=
  fun _ number further => readable _ number (below.trans further)

theorem tokensOf_subset_tokensOfItems {items : List Json} {item : Json} (member : item ∈ items) :
    tokensOf item ⊆ tokensOfItems items := by
  intro token inside
  induction items with
  | nil => exact absurd member List.not_mem_nil
  | cons first rest inductionHypothesis =>
    refine List.mem_cons_of_mem _ (List.mem_append.mpr ?_)
    rcases List.mem_cons.mp member with rfl | further
    · exact .inl inside
    · exact .inr (inductionHypothesis further)

theorem tokensOf_subset_tokensOfMembers {members : List (String × Json)} {key : String} {value : Json}
    (member : (key, value) ∈ members) : tokensOf value ⊆ tokensOfMembers members := by
  intro token inside
  induction members with
  | nil => exact absurd member List.not_mem_nil
  | cons first rest inductionHypothesis =>
    refine List.mem_cons_of_mem _ (List.mem_cons_of_mem _ (List.mem_cons_of_mem _ ?_))
    refine List.mem_append.mpr ?_
    rcases List.mem_cons.mp member with rfl | further
    · exact .inl inside
    · exact .inr (inductionHypothesis further)

/-- What sits inside of a value gives some of its tokens. -/
theorem tokensOf_subset_of_sitsBelow {value inner : Json} {depth : Nat}
    (below : SitsBelow value depth inner) : tokensOf inner ⊆ tokensOf value := by
  induction below with
  | here => exact List.Subset.refl _
  | @item items item inner depth member _ inductionHypothesis =>
    intro token inside
    have deeper := inductionHypothesis inside
    cases items with
    | nil => exact absurd member List.not_mem_nil
    | cons first rest =>
      refine List.mem_cons_of_mem _ (List.mem_append.mpr ?_)
      rcases List.mem_cons.mp member with rfl | further
      · exact .inl deeper
      · exact .inr (List.mem_append_left _ (tokensOf_subset_tokensOfItems further deeper))
  | @member members key value inner depth member _ inductionHypothesis =>
    intro token inside
    have deeper := inductionHypothesis inside
    cases members with
    | nil => exact absurd member List.not_mem_nil
    | cons first rest =>
      refine List.mem_cons_of_mem _ (List.mem_cons_of_mem _ (List.mem_cons_of_mem _
        (List.mem_append.mpr ?_)))
      rcases List.mem_cons.mp member with rfl | further
      · exact .inl deeper
      · exact .inr (List.mem_append_left _ (tokensOf_subset_tokensOfMembers further deeper))

/-- The numbers in a value can be looked up among its tokens. -/
theorem hasReadableNumbers_of_tokensOf {value : Json}
    (readable : ∀ token ∈ tokensOf value, ∀ number, token = .scalar (.number number) →
      number.ReadsBack) :
    value.HasReadableNumbers :=
  fun _ number below =>
    readable _ (tokensOf_subset_of_sitsBelow below List.mem_cons_self) number rfl

/-! ### Indented form -/

theorem isSpacing_of_mem_newLine (level : Nat) : ∀ blank ∈ newLine level, isSpacing blank = true := by
  intro blank member
  rcases List.mem_cons.mp member with rfl | further
  · decide
  · rw [List.eq_of_mem_replicate further]
    decide

theorem stopsNumber_newLine (level : Nat) (rest : List Char) : StopsNumber (newLine level ++ rest) :=
  stopsNumber_cons (by decide) _

section

variable {rest : List Char} {tokens : List Token} (read : tokens? rest = some tokens)
include read

theorem tokens?_newLine (level : Nat) : tokens? (newLine level ++ rest) = some tokens :=
  tokens?_append_of_spacing _ (isSpacing_of_mem_newLine level) read

/-- A mark in front of a text. -/
theorem tokens?_mark (mark : Char) (token : Token) (solid : isSpacing mark = false)
    (found : readToken mark rest = some (token, rest)) :
    tokens? (mark :: rest) = some (token :: tokens) :=
  tokens?_of_readToken [] solid found read

theorem tokens?_quoted (text : String) :
    tokens? (quoted text ++ rest) = some (.scalar (.text text) :: tokens) := by
  have whole : quoted text ++ rest = '"' :: (text.toList.flatMap escaped ++ ['"'] ++ rest) := by
    rw [quoted, List.cons_append, List.cons_append]
  rw [whole]
  refine tokens?_of_readToken _ (by decide) ?_ read
  rw [List.append_assoc]
  exact readToken_quoted text rest

end

theorem stopsNumber_indentedItems (level : Nat) (items : List Json) {rest : List Char}
    (stops : StopsNumber rest) : StopsNumber (indentedItems level items ++ rest) := by
  cases items with
  | nil => exact stops
  | cons item others => exact stopsNumber_cons (by decide) _

theorem stopsNumber_indentedMembers (level : Nat) (members : List (String × Json)) {rest : List Char}
    (stops : StopsNumber rest) : StopsNumber (indentedMembers level members ++ rest) := by
  cases members with
  | nil => exact stops
  | cons member others => exact stopsNumber_cons (by decide) _

/-- A key with its colon in front of the text of a value. -/
theorem tokens?_key {rest : List Char} {tokens : List Token} (read : tokens? rest = some tokens)
    (key : String) :
    tokens? (quoted key ++ ':' :: ' ' :: rest) = some (.scalar (.text key) :: .colon :: tokens) :=
  have spaced : tokens? (' ' :: rest) = some tokens :=
    tokens?_append_of_spacing [' '] (List.all_eq_true.mp (by decide)) read
  tokens?_quoted (tokens?_mark spaced ':' .colon (by decide) rfl) key

mutual

/-- The indented form of a value is cut into the tokens of the value. -/
theorem tokens?_indentedChars (level : Nat) (value : Json) (numbers : value.HasReadableNumbers)
    {rest : List Char} (stops : StopsNumber rest) {tokens : List Token}
    (read : tokens? rest = some tokens) :
    tokens? (value.indentedChars level ++ rest) = some (tokensOf value ++ tokens) := by
  match value with
  | .null => exact tokens?_of_readToken ['u', 'l', 'l'] (by decide) rfl read
  | .bool true => exact tokens?_of_readToken ['r', 'u', 'e'] (by decide) rfl read
  | .bool false => exact tokens?_of_readToken ['a', 'l', 's', 'e'] (by decide) rfl read
  | .number held =>
    obtain ⟨first, behind, text, found⟩ := numbers 0 held (.here _)
    have whole : indentedChars level (.number held) = first :: behind := text
    rw [whole, List.cons_append]
    exact tokens?_of_readToken _ (not_spacing_of_readToken found) (readToken_append stops found) read
  | .text content => exact tokens?_quoted read content
  | .array [] =>
    exact tokens?_mark (tokens?_mark read ']' .closeArray (by decide) rfl) '[' .openArray (by decide) rfl
  | .array (first :: others) =>
    -- from the back to the front, since what follows a number decides where it ends
    have closing := tokens?_newLine
      (tokens?_mark read ']' .closeArray (by decide) rfl) level
    have items := tokens?_indentedItems (level + 1) others
      (fun item member => numbers.inside (.item (List.mem_cons_of_mem _ member) (.here item)))
      (stopsNumber_newLine level _) closing
    have start := tokens?_indentedChars (level + 1) first
      (numbers.inside (.item List.mem_cons_self (.here first)))
      (stopsNumber_indentedItems _ _ (stopsNumber_newLine level _)) items
    have opening := tokens?_mark (tokens?_newLine start (level + 1)) '[' .openArray (by decide) rfl
    rw [indentedChars, tokensOf]
    simp only [List.append_assoc, List.cons_append, List.nil_append] at opening ⊢
    exact opening
  | .object [] =>
    exact tokens?_mark (tokens?_mark read '\x7d' .closeObject (by decide) rfl) '\x7b' .openObject
      (by decide) rfl
  | .object ((key, value) :: others) =>
    have closing := tokens?_newLine
      (tokens?_mark read '\x7d' .closeObject (by decide) rfl) level
    have members := tokens?_indentedMembers (level + 1) others
      (fun member inside =>
        numbers.inside (.member (List.mem_cons_of_mem _ inside) (.here member.2)))
      (stopsNumber_newLine level _) closing
    have start := tokens?_indentedChars (level + 1) value
      (numbers.inside (.member List.mem_cons_self (.here value)))
      (stopsNumber_indentedMembers _ _ (stopsNumber_newLine level _)) members
    have opening := tokens?_mark (tokens?_newLine (tokens?_key start key) (level + 1)) '\x7b' .openObject
      (by decide) rfl
    rw [indentedChars, tokensOf]
    simp only [List.append_assoc, List.cons_append, List.nil_append] at opening ⊢
    exact opening

theorem tokens?_indentedItems (level : Nat) (items : List Json)
    (numbers : ∀ item ∈ items, item.HasReadableNumbers) {rest : List Char} (stops : StopsNumber rest)
    {tokens : List Token} (read : tokens? rest = some tokens) :
    tokens? (indentedItems level items ++ rest) = some (tokensOfItems items ++ tokens) := by
  match items with
  | [] => exact read
  | item :: others =>
    have behind := tokens?_indentedItems level others
      (fun item member => numbers item (List.mem_cons_of_mem _ member)) stops read
    have here := tokens?_indentedChars level item (numbers item List.mem_cons_self)
      (stopsNumber_indentedItems level others stops) behind
    have whole := tokens?_mark (tokens?_newLine here level) ',' .comma (by decide) rfl
    rw [indentedItems, tokensOfItems]
    simp only [List.append_assoc, List.cons_append] at whole ⊢
    exact whole

theorem tokens?_indentedMembers (level : Nat) (members : List (String × Json))
    (numbers : ∀ member ∈ members, member.2.HasReadableNumbers) {rest : List Char}
    (stops : StopsNumber rest) {tokens : List Token} (read : tokens? rest = some tokens) :
    tokens? (indentedMembers level members ++ rest) = some (tokensOfMembers members ++ tokens) := by
  match members with
  | [] => exact read
  | (key, value) :: others =>
    have behind := tokens?_indentedMembers level others
      (fun member inside => numbers member (List.mem_cons_of_mem _ inside)) stops read
    have here := tokens?_indentedChars level value (numbers (key, value) List.mem_cons_self)
      (stopsNumber_indentedMembers level others stops) behind
    have whole := tokens?_mark (tokens?_newLine (tokens?_key here key) level) ',' .comma (by decide) rfl
    rw [indentedMembers, tokensOfMembers]
    simp only [List.append_assoc, List.cons_append] at whole ⊢
    exact whole

end

end ApiSurface.Json
