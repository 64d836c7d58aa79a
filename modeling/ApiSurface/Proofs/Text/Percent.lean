/-
This file proves what a text looks like that is written so that it can be a step of a path, and that it
reads back. Writing goes character by character, reading byte by byte; but each byte that is written with a
percent sign is read by itself, whatever follows it, so reading what stands for a character gives the bytes
of that character and goes on behind it. No character that means something in a path or in a template is
ever written.
-/

import ApiSurface.Text.Percent
import Mathlib.Data.List.Basic

namespace ApiSurface.Text

/-! ### Form -/

/-- Whether a character is one of the sixteen digits in which bytes are written. -/
def isHexDigit (character : Char) : Bool :=
  isDigit character || ('A' ≤ character && character ≤ 'F')

/-- Characters that stand for themselves, and percent signs with two digits behind each. -/
inductive IsPercentEncoded : List Char → Prop
  /-- Nothing is written as nothing. -/
  | nil : IsPercentEncoded []
  /-- A character that stands for itself comes first. -/
  | plain {character : Char} {rest : List Char} (unreserved : isUnreserved character = true)
      (behind : IsPercentEncoded rest) : IsPercentEncoded (character :: rest)
  /-- A byte comes first. -/
  | byte {high low : Char} {rest : List Char} (isHigh : isHexDigit high = true)
      (isLow : isHexDigit low = true) (behind : IsPercentEncoded rest) :
      IsPercentEncoded ('%' :: high :: low :: rest)

theorem IsPercentEncoded.append {first second : List Char} (encoded : IsPercentEncoded first)
    (behind : IsPercentEncoded second) : IsPercentEncoded (first ++ second) := by
  induction encoded with
  | nil => exact behind
  | plain unreserved _ inductionHypothesis => exact .plain unreserved inductionHypothesis
  | byte isHigh isLow _ inductionHypothesis => exact .byte isHigh isLow inductionHypothesis

theorem isPercentEncoded_flatMap {Item : Type} {written : Item → List Char} (items : List Item)
    (each : ∀ item, IsPercentEncoded (written item)) : IsPercentEncoded (items.flatMap written) := by
  induction items with
  | nil => exact .nil
  | cons item rest inductionHypothesis =>
    rw [List.flatMap_cons]
    exact (each item).append inductionHypothesis

/-- The two digits of a byte are digits, and read back. -/
theorem hexDigit_reads {number : Nat} (bound : number < 16) :
    isHexDigit (hexDigit number) = true ∧ hexValue? (hexDigit number) = some number := by
  have each : ∀ digit : Fin 16,
      isHexDigit (hexDigit digit) = true ∧ hexValue? (hexDigit digit) = some digit.val := by decide
  exact each ⟨number, bound⟩

theorem high_lt (byte : UInt8) : byte.toNat / 16 < 16 :=
  Nat.div_lt_of_lt_mul byte.toNat_lt

theorem low_lt (byte : UInt8) : byte.toNat % 16 < 16 :=
  Nat.mod_lt _ (by decide)

theorem isPercentEncoded_percentByte (byte : UInt8) : IsPercentEncoded (percentByte byte) :=
  .byte (hexDigit_reads (high_lt byte)).1 (hexDigit_reads (low_lt byte)).1 .nil

/-- A text as it stands in a path consists of characters that stand for themselves and of bytes. -/
theorem isPercentEncoded_percentEncode (text : List Char) : IsPercentEncoded (percentEncode text) := by
  refine isPercentEncoded_flatMap text fun character => ?_
  unfold percentChar
  split
  · next unreserved => exact .plain unreserved .nil
  · exact isPercentEncoded_flatMap _ isPercentEncoded_percentByte

theorem isUnreserved_of_isHexDigit {character : Char} (digit : isHexDigit character = true) :
    isUnreserved character = true := by
  simp only [isHexDigit, Bool.or_eq_true, Bool.and_eq_true, decide_eq_true_eq] at digit
  simp only [isUnreserved, isAlphanumeric, isLetter, Bool.or_eq_true, Bool.and_eq_true,
    decide_eq_true_eq]
  rcases digit with digit | ⟨least, greatest⟩
  · exact .inl (.inr digit)
  · exact .inl (.inl (.inr ⟨least, Char.le_trans greatest (by decide)⟩))

/-- What is written holds only characters that stand for themselves and percent signs. -/
theorem IsPercentEncoded.of_mem {text : List Char} (encoded : IsPercentEncoded text) {character : Char}
    (member : character ∈ text) : character = '%' ∨ isUnreserved character = true := by
  induction encoded with
  | nil => exact absurd member List.not_mem_nil
  | plain unreserved _ inductionHypothesis =>
    rcases List.mem_cons.mp member with rfl | later
    · exact .inr unreserved
    · exact inductionHypothesis later
  | byte isHigh isLow _ inductionHypothesis =>
    rcases List.mem_cons.mp member with rfl | later
    · exact .inl rfl
    rcases List.mem_cons.mp later with rfl | later
    · exact .inr (isUnreserved_of_isHexDigit isHigh)
    rcases List.mem_cons.mp later with rfl | later
    · exact .inr (isUnreserved_of_isHexDigit isLow)
    · exact inductionHypothesis later

theorem mem_percentEncode {text : List Char} {character : Char}
    (member : character ∈ percentEncode text) :
    character = '%' ∨ isUnreserved character = true :=
  (isPercentEncoded_percentEncode text).of_mem member

/-! ### Reading -/

theorem percentDecode_percentByte_append (byte : UInt8) (rest : List Char) :
    percentDecode (percentByte byte ++ rest) = byte :: percentDecode rest := by
  have high := (hexDigit_reads (high_lt byte)).2
  have low := (hexDigit_reads (low_lt byte)).2
  have whole : 16 * (byte.toNat / 16) + byte.toNat % 16 = byte.toNat := Nat.div_add_mod _ _
  rw [percentByte, List.cons_append, List.cons_append, List.cons_append, List.nil_append,
    percentDecode]
  simp only [high, low, whole, UInt8.ofNat_toNat]

theorem percentDecode_flatMap_append (bytes : List UInt8) (rest : List Char) :
    percentDecode (bytes.flatMap percentByte ++ rest) = bytes ++ percentDecode rest := by
  induction bytes with
  | nil => rfl
  | cons byte others inductionHypothesis =>
    rw [List.flatMap_cons, List.append_assoc, percentDecode_percentByte_append, inductionHypothesis,
      List.cons_append]

/-- A character that stands for itself is read by itself. -/
theorem percentDecode_cons_of_ne {character : Char} (noPercent : character ≠ '%') (rest : List Char) :
    percentDecode (character :: rest) = String.utf8EncodeChar character ++ percentDecode rest := by
  rw [percentDecode]
  intro first second others same _
  exact noPercent same

/-- What stands for a character is read as the bytes of the character, whatever follows. -/
theorem percentDecode_percentChar_append (character : Char) (rest : List Char) :
    percentDecode (percentChar character ++ rest) =
      String.utf8EncodeChar character ++ percentDecode rest := by
  unfold percentChar
  split
  · next unreserved =>
    refine percentDecode_cons_of_ne ?_ rest
    rintro rfl
    exact absurd unreserved (by decide)
  · exact percentDecode_flatMap_append _ rest

theorem percentDecode_percentEncode_append (text rest : List Char) :
    percentDecode (percentEncode text ++ rest) =
      text.flatMap String.utf8EncodeChar ++ percentDecode rest := by
  induction text with
  | nil => rfl
  | cons character others inductionHypothesis =>
    have first : percentEncode (character :: others) = percentChar character ++ percentEncode others :=
      List.flatMap_cons
    rw [first, List.append_assoc, percentDecode_percentChar_append, inductionHypothesis,
      List.flatMap_cons, List.append_assoc]

/-- A text as it stands in a path is read as the bytes of the text. -/
theorem percentDecode_percentEncode (text : String) :
    (percentDecode (percentEncode text.toList)).toByteArray = text.toByteArray := by
  have read := percentDecode_percentEncode_append text.toList []
  rw [List.append_nil, percentDecode, List.append_nil] at read
  rw [read, ← String.utf8Encode_toList, List.utf8Encode]

/-- Different texts are written differently. -/
theorem percentEncode_injective {first second : String}
    (same : percentEncode first.toList = percentEncode second.toList) : first = second := by
  rw [← String.toByteArray_inj, ← percentDecode_percentEncode, same, percentDecode_percentEncode]

end ApiSurface.Text
