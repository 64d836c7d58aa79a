/-
This file proves when a parameter of a method takes a name away from its statements. The statements
declare names that start with an underscore, which no parameter does, so those are safe. They also rely
on four names from outside, and nothing keeps a parameter from one of these: it gets it as soon as that
is what is left of the name under which it is sent, because the words that the language keeps for itself
do not contain them. A name that is extended because it is taken holds an underscore, so it is none of
the four.
-/

import ApiSurface.Proofs.Client.Coherence
import ApiSurface.Proofs.Text.Blank
import ApiSurface.Proofs.Text.Case

namespace ApiSurface

namespace Name

/-! ### Names between other characters -/

/-- A text that is a name, perhaps between characters that are neither letters nor digits. -/
def Wraps (name text : String) : Prop :=
  ∃ before after, text.toList = before ++ name.toList ++ after ∧
    (∀ character ∈ before, Text.isAlphanumeric character = false) ∧
    ∀ character ∈ after, Text.isAlphanumeric character = false

/-- A name of letters and digits that is taken as it stands. -/
structure IsBare (name : String) : Prop where
  /-- Its characters are letters and digits. -/
  plain : ∀ character ∈ name.toList, Text.isAlphanumeric character = true
  /-- A letter comes first. -/
  starts : name.toList.head?.any Text.isLetter = true
  /-- It is no word of the language. -/
  free : isReserved name = false
  /-- It is not the name for a text in which nothing is left. -/
  other : name ≠ "param"

/-- The character that stands for a character in an identifier. -/
def identifierCharacter (character : Char) : Char :=
  if Text.continuesName character then character else '_'

theorem identifierCharacter_eq_underscore_iff (character : Char) :
    (identifierCharacter character == '_') = !Text.isAlphanumeric character := by
  unfold identifierCharacter Text.continuesName
  cases known : Text.isAlphanumeric character with
  | true =>
    rw [Bool.true_or, if_pos rfl, Bool.not_true, beq_eq_false_iff_ne]
    rintro rfl
    exact absurd known (by decide)
  | false =>
    rw [Bool.false_or]
    split
    · next underscore => rw [underscore]; rfl
    · rfl

theorem identifierCharacter_of_isAlphanumeric {character : Char}
    (known : Text.isAlphanumeric (identifierCharacter character) = true) :
    identifierCharacter character = character := by
  unfold identifierCharacter at known ⊢
  split
  · rfl
  · next broken =>
    rw [if_neg broken] at known
    exact absurd known (by decide)

/-- What is left of a text is what stands between the characters at its ends that are neither letters
nor digits. -/
theorem bareIdentifier_eq (text : List Char) :
    bareIdentifier text =
      ((text.dropWhile fun character => !Text.isAlphanumeric character).rdropWhile
        fun character => !Text.isAlphanumeric character).map identifierCharacter := by
  have same : ((· == '_') ∘ identifierCharacter) = fun character => !Text.isAlphanumeric character :=
    funext identifierCharacter_eq_underscore_iff
  show ((text.map identifierCharacter).dropWhile (· == '_')).rdropWhile (· == '_') = _
  rw [List.rdropWhile, List.rdropWhile, List.dropWhile_map, ← List.map_reverse, List.dropWhile_map,
    ← List.map_reverse, same]

/-- A run without characters of a class is what is left of a text without those at its ends, as long as
there are only such characters around it. -/
theorem rdropWhile_dropWhile_eq_iff {test : Char → Bool} {run : List Char} (filled : run ≠ [])
    (solid : ∀ character ∈ run, test character = false) {text : List Char} :
    (text.dropWhile test).rdropWhile test = run ↔
      ∃ before after, text = before ++ run ++ after ∧ (∀ character ∈ before, test character = true) ∧
        ∀ character ∈ after, test character = true := by
  constructor
  · rintro rfl
    exact Text.exists_eq_append_rdropWhile test text
  · rintro ⟨before, after, rfl, leads, follows⟩
    have stops : ∀ first ∈ (run ++ after).head?, test first = false := by
      rw [List.head?_append_of_ne_nil _ filled]
      exact fun first member => solid first (List.mem_of_mem_head? member)
    have ends : ∀ last ∈ run.reverse.head?, test last = false :=
      fun last member => solid last (List.mem_reverse.mp (List.mem_of_mem_head? member))
    rw [List.append_assoc, Text.dropWhile_append_of_stop leads stops, List.rdropWhile,
      List.reverse_append, Text.dropWhile_append_of_stop _ ends, List.reverse_reverse]
    exact fun character member => follows character (List.mem_reverse.mp member)

section

variable {name : String} (bare : IsBare name)
include bare

theorem IsBare.toList_ne_nil : name.toList ≠ [] := by
  intro empty
  have starts := bare.starts
  rw [empty] at starts
  cases starts

theorem IsBare.underscore_notMem : '_' ∉ name.toList :=
  fun member => absurd (bare.plain '_' member) (by decide)

/-- What is left of a text is a name of letters and digits if nothing else of the kind is in it. -/
theorem IsBare.bareIdentifier_eq_iff (text : String) :
    bareIdentifier text.toList = name.toList ↔ Wraps name text := by
  have solid : ∀ character ∈ name.toList, (!Text.isAlphanumeric character) = false :=
    fun character member => by rw [bare.plain character member]; rfl
  have read := @rdropWhile_dropWhile_eq_iff _ _ bare.toList_ne_nil solid text.toList
  simp only [Bool.not_eq_true'] at read
  rw [Wraps, ← read, bareIdentifier_eq]
  constructor
  · intro mapped
    rw [← mapped, List.map_congr_left fun character member => ?_, List.map_id']
    refine identifierCharacter_of_isAlphanumeric (bare.plain _ ?_)
    rw [← mapped]
    exact List.mem_map_of_mem member
  · intro left
    rw [left]
    refine (List.map_congr_left fun character member => ?_).trans (List.map_id' _)
    exact if_pos (Text.continuesName_of_isAlphanumeric (bare.plain character member))

/-- Before words of the language are avoided, a name comes only from what is left of a text. -/
theorem IsBare.rawIdentifier_eq_iff (text : String) :
    rawIdentifier text = name ↔ bareIdentifier text.toList = name.toList := by
  have starts := bare.starts
  rw [← String.toList_inj, rawIdentifier, String.toList_ofList]
  split
  · next nothing =>
    rw [nothing]
    exact iff_of_false (fun same => bare.other (String.toList_inj.mp same.symm))
      bare.toList_ne_nil.symm
  · next first rest left =>
    rw [left]
    split
    · next digit =>
      refine iff_of_false (fun same => ?_) fun same => ?_
      · refine bare.underscore_notMem ?_
        rw [← same]
        exact List.mem_cons_of_mem _ List.mem_cons_self
      · rw [← same] at starts
        have known : Text.isAlphanumeric first = true := by
          rw [Text.isAlphanumeric, digit, Bool.or_true]
        have letter : Text.isLetter first = true := starts
        rw [Text.isLetter_eq_not_isDigit known, digit] at letter
        cases letter
    · rfl

/-- A text becomes a name of letters and digits if nothing else of the kind is in it. -/
theorem IsBare.sanitize_eq_iff (text : String) : sanitize text = name ↔ Wraps name text := by
  rw [← bare.bareIdentifier_eq_iff, ← bare.rawIdentifier_eq_iff, sanitize_eq]
  split
  · next avoided =>
    rw [Bool.and_eq_true] at avoided
    refine iff_of_false ?_ ?_
    · rintro rfl
      refine bare.underscore_notMem ?_
      rw [String.toList_append]
      exact List.mem_append_right _ (by decide)
    · rintro rfl
      rw [bare.free] at avoided
      exact absurd avoided.2 Bool.false_ne_true
  · rfl

end

end Name

namespace Client

open Name (Allocator Wraps)

/-! ### Names in the statements of a method -/

/-- The names that the statements of a method declare. -/
def localNames : List String :=
  ["_path", "_query", "_form", "_files", "_payload", "_response"]

/-- The names from outside on which the statements of a method rely. -/
def outerNames : List String :=
  ["encodeURIComponent", "String", "MissingParameterError", "decodeResponse"]

theorem isBare_of_mem_outerNames {name : String} (outer : name ∈ outerNames) : Name.IsBare name := by
  have plain : ∀ name ∈ outerNames, name.toList.all Text.isAlphanumeric = true := by decide
  have starts : ∀ name ∈ outerNames, name.toList.head?.any Text.isLetter = true := by decide
  have free : ∀ name ∈ outerNames, Name.isReserved name = false := by decide
  have other : ∀ name ∈ outerNames, name ≠ "param" := by decide
  exact ⟨List.all_eq_true.mp (plain name outer), starts name outer, free name outer, other name outer⟩

section

variable {operation : ExtractedOperation} {method : Method}

/-- Each parameter of a method stands for a declaration, under an extension of its identifier. -/
theorem exists_isNamed_of_buildMethod (built : buildMethod operation = .ok method)
    {parameter : Parameter} (member : parameter ∈ method.parameters) :
    ∃ declaration ∈ declaredParameters operation, IsNamed declaration.1 declaration.2 parameter := by
  obtain ⟨inPath, inQuery, inBody, pathNamed, queryNamed, bodyNamed, -, -, rfl⟩ :=
    buildMethod_eq_ok built
  exact exists_of_forall₂_mem (forall₂_declaredParameters pathNamed queryNamed bodyNamed)
    ((requiredFirst_perm _).mem_iff.mp member)

/-- The identifier of each declaration is the name of a parameter, unless it is that of a receiver. -/
theorem exists_internal_eq_sanitize (built : buildMethod operation = .ok method)
    {declaration : Location × Operation.Parameter}
    (declared : declaration ∈ declaredParameters operation) :
    Name.sanitize declaration.2.name ∈ Name.receivers ∨
      ∃ parameter ∈ method.parameters, parameter.internal = Name.sanitize declaration.2.name := by
  obtain ⟨inPath, inQuery, inBody, afterPath, afterQuery, afterBody, pathDone, queryDone, bodyDone,
    names, rfl⟩ := exists_nameAll_of_buildMethod built
  obtain ⟨-, queryTaken, -⟩ := nameAll_eq_ok queryDone
  obtain ⟨-, bodyTaken, -⟩ := nameAll_eq_ok bodyDone
  have taken : Name.sanitize declaration.2.name ∈ afterBody.taken := by
    rcases List.mem_append.mp declared with outside | ofBody
    · rw [bodyTaken]
      refine List.mem_append_right _ ?_
      rcases List.mem_append.mp outside with ofPath | ofQuery
      · obtain ⟨raw, listed, rfl⟩ := List.mem_map.mp ofPath
        rw [queryTaken]
        exact List.mem_append_right _ (mem_taken_of_nameAll pathDone raw listed)
      · obtain ⟨raw, listed, rfl⟩ := List.mem_map.mp ofQuery
        exact mem_taken_of_nameAll queryDone raw listed
    · obtain ⟨raw, listed, rfl⟩ := List.mem_map.mp ofBody
      exact mem_taken_of_nameAll bodyDone raw listed
  rw [names, List.mem_append, List.mem_reverse, List.mem_map] at taken
  obtain ⟨parameter, listed, same⟩ | receiver := taken
  · exact .inr ⟨parameter, (requiredFirst_perm _).mem_iff.mpr listed, same⟩
  · exact .inl receiver

/-- A name on which the statements of a method rely is taken away by a parameter exactly if it comes
from outside and is what is left, of the name under which a parameter is sent, between the characters at
its ends that are neither letters nor digits. -/
theorem exists_internal_eq_iff (built : buildMethod operation = .ok method) {name : String}
    (used : name ∈ localNames ++ outerNames) :
    (∃ parameter ∈ method.parameters, parameter.internal = name) ↔
      name ∈ outerNames ∧ ∃ declaration ∈ declaredParameters operation,
        Wraps name declaration.2.name := by
  constructor
  · rintro ⟨parameter, member, rfl⟩
    obtain ⟨declaration, declared, stands⟩ := exists_isNamed_of_buildMethod built member
    rcases List.mem_append.mp used with declares | outer
    · have underscore : ∀ name ∈ localNames, name.toList.head? = some '_' := by decide
      exact absurd (underscore _ declares) stands.isIdentifier.head?_ne_underscore
    · have bare := isBare_of_mem_outerNames outer
      have same := stands.2.eq_of_underscore_notMem bare.underscore_notMem
      exact ⟨outer, declaration, declared, (bare.sanitize_eq_iff _).mp same.symm⟩
  · rintro ⟨outer, declaration, declared, wraps⟩
    have same := ((isBare_of_mem_outerNames outer).sanitize_eq_iff _).mpr wraps
    have apart : ∀ name ∈ outerNames, name ∉ Name.receivers := by decide
    rcases exists_internal_eq_sanitize built declared with receiver | ⟨parameter, member, named⟩
    · exact absurd (same ▸ receiver) (apart name outer)
    · exact ⟨parameter, member, named.trans same⟩

end

/-- An operation on pets whose parameters in the path have given names. -/
def petOperation (names : List String) : ExtractedOperation where
  path := "/pets/" ++ "/".intercalate (names.map fun name => "\x7b" ++ name ++ "\x7d")
  verb := .get
  identifier := none
  summary := ""
  description := ""
  tags := []
  pathParameters := names.map fun name => ⟨name, .object [], "", true, none, false⟩
  queryParameters := []
  body := .none
  returnKind := .unknown
  returnsDescription := ""

/-- Names like those of the statements: two of them lose what makes them different. -/
theorem exists_internal_eq_iff_lookalikes : ∃ method,
    buildMethod (petOperation ["_path", "$String", "toString"]) = .ok method ∧
    method.parameters.map Parameter.internal = ["path", "String", "toString"] ∧
    "String" ∈ localNames ++ outerNames ∧
    ((∃ parameter ∈ method.parameters, parameter.internal = "String") ↔
      "String" ∈ outerNames ∧
        ∃ declaration ∈ declaredParameters (petOperation ["_path", "$String", "toString"]),
          Wraps "String" declaration.2.name) := by
  have computed : ((buildMethod (petOperation ["_path", "$String", "toString"])).toOption.map
      fun method => method.parameters.map Parameter.internal) = some ["path", "String", "toString"] := by
    decide
  obtain ⟨method, done, names⟩ := Option.map_eq_some_iff.mp computed
  have built := eq_ok_of_toOption done
  have used : "String" ∈ localNames ++ outerNames := by decide
  exact ⟨method, built, names, used, exists_internal_eq_iff built used⟩

/-- A parameter of the name `String` takes away the function that turns arguments into texts, so the
statement that puts the path together calls the argument. -/
theorem buildMethod_captures : ∃ method,
    buildMethod (petOperation ["String"]) = .ok method ∧ "String" ∈ outerNames ∧
    method.parameters.map Parameter.internal = ["String"] ∧
    "const _path = \x60/pets/$\x7bencodeURIComponent(String(String))\x7d\x60;" ∈ method.body := by
  have computed : ((buildMethod (petOperation ["String"])).toOption.map fun method =>
      (method.parameters.map Parameter.internal, decide
        ("const _path = \x60/pets/$\x7bencodeURIComponent(String(String))\x7d\x60;" ∈ method.body))) =
      some (["String"], true) := by decide +kernel
  obtain ⟨method, done, facts⟩ := Option.map_eq_some_iff.mp computed
  obtain ⟨names, writes⟩ := Prod.mk.inj facts
  exact ⟨method, eq_ok_of_toOption done, by decide, names, of_decide_eq_true writes⟩

end Client

end ApiSurface
