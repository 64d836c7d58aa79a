/-
This file proves what texts read as that are put together of other texts. Each way of putting types
together is looked at once: what the parts read as, wherever an operand may come, tells what the whole
reads as there. Brackets of an array are only put behind a text without blanks, and every text of more
than one alternative has blanks, so the brackets are never behind the last alternative alone.
-/

import ApiSurface.Proofs.TypeScript.TypeForm
import ApiSurface.TypeScript.Type

namespace ApiSurface.TypeScript

open TypeForm (unionOf)

/-! ### Lines -/

/-- Whether no character is a control character, so that none of them breaks the line. -/
def isPrintable (text : List Char) : Bool :=
  text.all fun character => 0x20 ≤ character.toNat

theorem isPrintable_iff {text : List Char} :
    isPrintable text = true ↔ ∀ character ∈ text, 0x20 ≤ character.toNat := by
  simp [isPrintable]

theorem isPrintable_append {text other : List Char} (printable : isPrintable text = true)
    (printableOther : isPrintable other = true) : isPrintable (text ++ other) = true := by
  rw [isPrintable_iff] at *
  exact List.forall_mem_append.mpr ⟨printable, printableOther⟩

theorem space_le_of_continuesProperty {character : Char}
    (continued : continuesProperty character = true) : 0x20 ≤ character.toNat := by
  simp only [continuesProperty, Text.continuesName, Text.isAlphanumeric, Text.isLetter, Text.isDigit,
    Bool.or_eq_true, Bool.and_eq_true, decide_eq_true_eq, Char.le_def, UInt32.le_iff_toNat_le,
    beq_iff_eq] at continued
  rcases continued with (((⟨least, -⟩ | ⟨least, -⟩) | ⟨least, -⟩) | rfl) | rfl
  · exact Nat.le_trans (by decide) least
  · exact Nat.le_trans (by decide) least
  · exact Nat.le_trans (by decide) least
  · decide
  · decide

theorem isPrintable_word {first : Char} {others : List Char} (starts : startsProperty first = true)
    (continued : others.all continuesProperty = true) : isPrintable (first :: others) = true :=
  isPrintable_iff.mpr (List.forall_mem_cons.mpr
    ⟨space_le_of_continuesProperty (continuesProperty_of_startsProperty starts),
      fun character inside =>
        space_le_of_continuesProperty (List.all_eq_true.mp continued character inside)⟩)

theorem isPrintable_stringLiteral (text : String) : isPrintable (stringLiteral text).toList = true := by
  rw [stringLiteral, Json.compact, String.toList_ofList, Json.compactChars, Json.quoted]
  have inside : isPrintable (text.toList.flatMap Json.escaped) = true := by
    refine isPrintable_iff.mpr fun character member => ?_
    obtain ⟨original, -, written⟩ := List.mem_flatMap.mp member
    exact Json.space_le_of_mem_escaped written
  exact isPrintable_append (isPrintable_append (by decide : isPrintable ['"'] = true) inside)
    (by decide)

/-! ### Texts that read as types -/

/-- Where an operand may come, tokens are read as alternatives. -/
def ReadsAs (own : List TypeToken) (alternatives : List TypeForm) : Prop :=
  ∀ before frames rest, (TypeReader.operand before frames).run (own ++ rest) =
    (TypeReader.behind (alternatives.reverse ++ before) frames).run rest

/-- A text is written for alternatives. -/
structure IsWritten (text : String) (alternatives : List TypeForm) : Prop where
  /-- It is on one line. -/
  printable : isPrintable text.toList = true
  /-- Where there is no blank, there is one alternative. -/
  alone : ' ' ∉ text.toList → ∃ form, alternatives = [form]
  /-- It reads as the alternatives. -/
  reads : ∃ own, CutsInto text.toList own ∧ ReadsAs own alternatives

theorem isWritten_of_token {text : String} {token : TypeToken} {form : TypeForm}
    (printable : isPrintable text.toList = true) (cuts : CutsInto text.toList [token])
    (taken : ∀ before frames, (TypeReader.operand before frames).step token =
      some (.behind (form :: before) frames)) : IsWritten text [form] where
  printable := printable
  alone _ := ⟨form, rfl⟩
  reads := ⟨_, cuts, fun before frames rest => TypeReader.run_cons _ (taken before frames) rest⟩

theorem isWritten_word {name : String} {first : Char} {others : List Char}
    (whole : name.toList = first :: others) (starts : startsProperty first = true)
    (continued : others.all continuesProperty = true) :
    IsWritten name [.word name] := by
  have cuts := cutsInto_word starts continued
  have printable := isPrintable_word starts continued
  rw [← whole] at cuts printable
  rw [String.ofList_toList] at cuts
  exact isWritten_of_token printable cuts fun _ _ => rfl

theorem isWritten_literal (text : String) : IsWritten (stringLiteral text) [.literal text] :=
  isWritten_of_token (isPrintable_stringLiteral text) (cutsInto_literal text) fun _ _ => rfl

theorem IsWritten.union {text other : String} {alternatives others : List TypeForm}
    (written : IsWritten text alternatives) (writtenOther : IsWritten other others) :
    IsWritten (text ++ " | " ++ other) (alternatives ++ others) := by
  obtain ⟨own, cuts, reads⟩ := written.reads
  obtain ⟨further, cutsOther, readsOther⟩ := writtenOther.reads
  have whole : (text ++ " | " ++ other).toList = text.toList ++ (" | ".toList ++ other.toList) := by
    rw [String.toList_append, String.toList_append, List.append_assoc]
  refine ⟨?_, fun solid => absurd (by simp [whole]) solid, own ++ (.mark '|' :: further), ?_,
    fun before frames rest => ?_⟩
  · rw [whole]
    exact isPrintable_append written.printable
      (isPrintable_append (by decide) writtenOther.printable)
  · rw [whole]
    exact cuts.marks _ (by decide) (by decide) cutsOther
  · rw [List.append_assoc, reads, List.cons_append, TypeReader.run_cons (.operand _ frames) rfl,
      readsOther, List.reverse_append, List.append_assoc]

/-- The type of arrays has the whole type of the items, whatever it is. -/
theorem IsWritten.arrayOf {item : String} {alternatives : List TypeForm}
    (written : IsWritten item alternatives) :
    IsWritten (arrayOf item) [.list (unionOf alternatives)] := by
  obtain ⟨own, cuts, reads⟩ := written.reads
  unfold TypeScript.arrayOf
  split
  · have whole : ("Array<" ++ item ++ ">").toList =
        "Array".toList ++ ("<".toList ++ (item.toList ++ (">".toList ++ []))) := by
      rw [String.toList_append, String.toList_append, List.append_assoc, List.append_nil]
      rfl
    refine ⟨?_, fun _ => ⟨_, rfl⟩, .word "Array" :: .mark '<' :: (own ++ [.mark '>']), ?_,
      fun before frames rest => ?_⟩
    · rw [whole]
      exact isPrintable_append (by decide) (isPrintable_append (by decide)
        (isPrintable_append written.printable (by decide)))
    · rw [whole]
      exact (cutsInto_word (by decide) (by decide)).marks _ (by decide) (by decide)
        (cuts.marks _ (by decide) (by decide) cutsInto_nil)
    · rw [List.cons_append, List.cons_append, List.append_assoc,
        TypeReader.run_cons (.behind (.word "Array" :: before) frames) rfl,
        TypeReader.run_cons (.operand [] (.arguments "Array" [] before :: frames)) rfl, reads,
        List.append_nil]
      refine TypeReader.run_cons _ ?_ _
      rw [TypeReader.step, List.reverse_reverse]
      rfl
  · next solid =>
    obtain ⟨form, rfl⟩ := written.alone (by simpa using solid)
    have whole : (item ++ "[]").toList = item.toList ++ ("[]".toList ++ []) := by
      rw [String.toList_append, List.append_nil]
    refine ⟨?_, fun _ => ⟨_, rfl⟩, own ++ [.mark '[', .mark ']'], ?_, fun before frames rest => ?_⟩
    · rw [whole]
      exact isPrintable_append written.printable (by decide)
    · rw [whole]
      exact cuts.marks _ (by decide) (by decide) cutsInto_nil
    · rw [List.append_assoc, reads]
      rfl

theorem isWritten_record : IsWritten "Record<string, unknown>" [.record] where
  printable := by decide
  alone _ := ⟨_, rfl⟩
  reads := by
    have head : CutsInto "Record".toList [.word "Record"] := cutsInto_word (by decide) (by decide)
    have key : CutsInto "string".toList [.word "string"] := cutsInto_word (by decide) (by decide)
    have value : CutsInto "unknown".toList [.word "unknown"] := cutsInto_word (by decide) (by decide)
    have last := value.marks ">".toList (by decide) (by decide) cutsInto_nil
    have both := key.marks ", ".toList (by decide) (by decide) last
    exact ⟨_, head.marks "<".toList (by decide) (by decide) both, fun _ _ _ => rfl⟩

/-! ### Texts that read as fields -/

/-- A text is written for a field. -/
def IsWrittenField (text : String) (field : FieldName × TypeForm) : Prop :=
  ∃ type alternatives, IsWritten type alternatives ∧ field.2 = unionOf alternatives ∧
    text = propertyKey field.1.name ++ (if field.1.isOptional then "?" else "") ++ ": " ++ type

/-- The name of a field is a word or else a literal, and the machine takes either. -/
theorem exists_token_propertyKey (name : String) :
    ∃ token, isPrintable (propertyKey name).toList = true ∧ CutsInto (propertyKey name).toList [token] ∧
      ∀ read before frames, (TypeReader.field read before frames).step token =
        some (.named name read before frames) := by
  have quoted : ∃ token, isPrintable (stringLiteral name).toList = true ∧
      CutsInto (stringLiteral name).toList [token] ∧
      ∀ read before frames, (TypeReader.field read before frames).step token =
        some (.named name read before frames) :=
    ⟨_, isPrintable_stringLiteral name, cutsInto_literal name, fun _ _ _ => rfl⟩
  unfold propertyKey
  split
  · exact quoted
  · next first rest whole =>
    split
    · next bare =>
      obtain ⟨starts, continued⟩ := Bool.and_eq_true_iff.mp bare
      have cuts := cutsInto_word starts continued
      rw [← whole, String.ofList_toList] at cuts
      exact ⟨_, whole ▸ isPrintable_word starts continued, cuts, fun _ _ _ => rfl⟩
    · exact quoted

/-- The text of a field reads as its name and its type, which stays open. -/
theorem IsWrittenField.exists_reads {text : String} {field : FieldName × TypeForm}
    (written : IsWrittenField text field) :
    ∃ own alternatives, field.2 = unionOf alternatives ∧ isPrintable text.toList = true ∧
      CutsInto text.toList own ∧
      ∀ read before frames rest, (TypeReader.field read before frames).run (own ++ rest) =
        (TypeReader.behind alternatives.reverse (.fields field.1 read before :: frames)).run rest := by
  obtain ⟨⟨name, isOptional⟩, form⟩ := field
  obtain ⟨type, alternatives, writtenType, same, rfl⟩ := written
  obtain ⟨own, cuts, reads⟩ := writtenType.reads
  obtain ⟨token, printable, cutsKey, named⟩ := exists_token_propertyKey name
  have whole : (propertyKey name ++ (if isOptional then "?" else "") ++ ": " ++ type).toList =
      (propertyKey name).toList ++ ((if isOptional then "?: " else ": ").toList ++ type.toList) := by
    cases isOptional <;> simp
  refine ⟨token :: (marksOf (if isOptional then "?: " else ": ").toList ++ own), alternatives, same,
    ?_, ?_, fun read before frames rest => ?_⟩
  · rw [whole]
    refine isPrintable_append printable (isPrintable_append ?_ writtenType.printable)
    cases isOptional <;> decide
  · rw [whole]
    refine cutsKey.marks _ ?_ ?_ cuts <;> cases isOptional <;> decide
  · have passed : (TypeReader.named name read before frames).run
        (marksOf (if isOptional then "?: " else ": ").toList ++ (own ++ rest)) =
          (TypeReader.operand [] (.fields ⟨name, isOptional⟩ read before :: frames)).run
            (own ++ rest) := by
      cases isOptional <;> rfl
    rw [List.cons_append, TypeReader.run_cons _ (named read before frames), List.append_assoc, passed,
      reads, List.append_nil]

/-- Where a field may come, tokens are read as fields up to the end of the object type. -/
def ReadsAsFields (own : List TypeToken) (fields : List (FieldName × TypeForm)) : Prop :=
  ∀ read before frames rest, (TypeReader.field read before frames).run (own ++ .mark '\x7d' :: rest) =
    (TypeReader.behind (.object (read.reverse ++ fields) :: before) frames).run rest

/-- Fields with a semicolon between each two read one after the other. -/
theorem exists_reads_intercalate {texts : List String} {fields : List (FieldName × TypeForm)}
    (written : List.Forall₂ IsWrittenField texts fields) (filled : texts ≠ []) :
    ∃ own, isPrintable ("; ".toList.intercalate (texts.map String.toList)) = true ∧
      CutsInto ("; ".toList.intercalate (texts.map String.toList)) own ∧ ReadsAsFields own fields := by
  induction written with
  | nil => exact absurd rfl filled
  | @cons text field _ _ first others inductionHypothesis =>
    obtain ⟨own, alternatives, same, printable, cuts, reads⟩ := first.exists_reads
    cases others with
    | nil =>
      refine ⟨own, by simpa using printable, by simpa using cuts, fun read before frames rest => ?_⟩
      rw [reads]
      refine TypeReader.run_cons _ ?_ _
      rw [TypeReader.step, List.reverse_reverse, ← same, List.reverse_cons]
    | cons second further =>
      obtain ⟨behind, printableBehind, cutsBehind, readsBehind⟩ :=
        inductionHypothesis (List.cons_ne_nil _ _)
      rw [List.map_cons, List.map_cons, List.intercalate_cons_cons, List.append_assoc]
      refine ⟨own ++ (.mark ';' :: behind), ?_, ?_, fun read before frames rest => ?_⟩
      · exact isPrintable_append printable (isPrintable_append (by decide) printableBehind)
      · exact cuts.marks _ (by decide) (by decide) cutsBehind
      · have taken : (TypeReader.behind alternatives.reverse (.fields field.1 read before :: frames)).step
            (.mark ';') = some (.field (field :: read) before frames) := by
          rw [TypeReader.step, List.reverse_reverse, ← same]
        rw [List.append_assoc, reads, List.cons_append, TypeReader.run_cons _ taken, readsBehind,
          List.reverse_cons, List.append_assoc, List.singleton_append]

theorem isWritten_objectOf {texts : List String} {fields : List (FieldName × TypeForm)}
    (written : List.Forall₂ IsWrittenField texts fields) :
    IsWritten (objectOf texts) [.ofFields fields] := by
  cases written with
  | nil => exact isWritten_record
  | @cons text field texts fields first others =>
    obtain ⟨own, printable, cuts, reads⟩ :=
      exists_reads_intercalate (.cons first others) (List.cons_ne_nil _ _)
    have whole : (objectOf (text :: texts)).toList =
        "\x7b ".toList ++ ("; ".toList.intercalate ((text :: texts).map String.toList) ++
          (" \x7d".toList ++ [])) := by
      rw [objectOf, if_neg (by simp), String.toList_append, String.toList_append,
        String.toList_intercalate, List.append_assoc, List.append_nil]
    refine ⟨?_, fun _ => ⟨_, rfl⟩, .mark '\x7b' :: (own ++ [.mark '\x7d']), ?_,
      fun before frames rest => ?_⟩
    · rw [whole]
      exact isPrintable_append (by decide) (isPrintable_append printable (by decide))
    · rw [whole]
      have closed := cuts.marks " \x7d".toList (by decide) (by decide) cutsInto_nil
      exact cutsInto_nil.marks "\x7b ".toList (by decide) (by decide) closed
    · rw [List.cons_append, TypeReader.run_cons (.field [] before frames) rfl, List.append_assoc]
      exact reads [] before frames rest

/-! ### Whole texts -/

/-- A text alone takes the machine from the start to behind its alternatives. -/
theorem IsWritten.run {text : String} {alternatives : List TypeForm}
    (written : IsWritten text alternatives) :
    ∃ own, typeTokens? text.toList = some own ∧
      (TypeReader.operand [] []).run own = some (.behind alternatives.reverse []) := by
  obtain ⟨own, cuts, reads⟩ := written.reads
  have whole := cuts [] [] (fun _ _ _ => nofun) (by rw [typeTokens?])
  have taken := reads [] [] []
  rw [List.append_nil, List.append_nil] at whole taken
  exact ⟨own, whole, taken⟩

/-- A text reads in one way only. -/
theorem IsWritten.unique {text : String} {alternatives others : List TypeForm}
    (written : IsWritten text alternatives) (writtenOther : IsWritten text others) :
    alternatives = others := by
  obtain ⟨own, cut, taken⟩ := written.run
  obtain ⟨further, cutOther, takenOther⟩ := writtenOther.run
  obtain rfl := Option.some.inj (cut.symm.trans cutOther)
  have same := Option.some.inj (taken.symm.trans takenOther)
  exact List.reverse_inj.mp (TypeReader.behind.inj same).1

theorem IsWritten.readType? {text : String} {alternatives : List TypeForm}
    (written : IsWritten text alternatives) : readType? text = some (unionOf alternatives) := by
  obtain ⟨own, cut, taken⟩ := written.run
  rw [TypeScript.readType?, cut, Option.bind_eq_bind, Option.bind_some, taken, Option.bind_eq_bind,
    Option.bind_some]
  dsimp only
  rw [List.reverse_reverse]

end ApiSurface.TypeScript
