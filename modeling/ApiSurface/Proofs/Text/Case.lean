/-
This file proves facts about the characters that names are made of. They all lie between the capital
`A` and the small `z`, digits apart, and so none of them is blank. What changing the case does to a
letter or digit can be looked up for each of them, because there are so few.
-/

import ApiSurface.Proofs.Text.Blank
import ApiSurface.Text.Case

namespace ApiSurface.Text

theorem bounds_of_startsName {character : Char} (starts : startsName character = true) :
    0x41 ≤ character.toNat ∧ character.toNat ≤ 0x7A := by
  simp only [startsName, isLetter, Bool.or_eq_true, Bool.and_eq_true, decide_eq_true_eq,
    Char.le_def, UInt32.le_iff_toNat_le, beq_iff_eq] at starts
  rcases starts with (⟨least, greatest⟩ | ⟨least, greatest⟩) | rfl
  · exact ⟨Nat.le_trans (by decide) least, greatest⟩
  · exact ⟨least, Nat.le_trans greatest (by decide)⟩
  · decide

theorem isBlank_of_bounds {character : Char} (least : 0x20 < character.toNat)
    (greatest : character.toNat < 0x85) : isBlank character = false := by
  simp only [isBlank, Bool.or_eq_false_iff, Bool.and_eq_false_iff, decide_eq_false_iff_not,
    beq_eq_false_iff_ne]
  omega

theorem isBlank_of_startsName {character : Char} (starts : startsName character = true) :
    isBlank character = false := by
  obtain ⟨least, greatest⟩ := bounds_of_startsName starts
  exact isBlank_of_bounds (Nat.lt_of_lt_of_le (by decide) least)
    (Nat.lt_of_le_of_lt greatest (by decide))

/-! ### Letters and digits -/

theorem toNat_lt_of_isAlphanumeric {character : Char} (known : isAlphanumeric character = true) :
    character.toNat < 0x80 := by
  simp only [isAlphanumeric, isLetter, isDigit, Bool.or_eq_true, Bool.and_eq_true, decide_eq_true_eq,
    Char.le_def, UInt32.le_iff_toNat_le] at known
  rcases known with (⟨-, greatest⟩ | ⟨-, greatest⟩) | ⟨-, greatest⟩ <;>
    exact Nat.lt_of_le_of_lt greatest (by decide)

theorem isLetter_of_isLetter_toLower {character : Char} (letter : isLetter character.toLower = true) :
    isLetter character = true := by
  unfold Char.toLower at letter
  split at letter
  · next capital =>
    obtain ⟨least, greatest⟩ : 'A' ≤ character ∧ character ≤ 'Z' := capital
    simp [isLetter, least, greatest]
  · exact letter

/-- What holds for every letter and digit can be checked on the codes of ASCII. -/
theorem of_isAlphanumeric (holds : Char → Bool)
    (checked : (List.range 0x80).all
      (fun code => !isAlphanumeric (Char.ofNat code) || holds (Char.ofNat code)) = true)
    {character : Char} (known : isAlphanumeric character = true) : holds character = true := by
  have each := List.all_eq_true.mp checked character.toNat
    (List.mem_range.mpr (toNat_lt_of_isAlphanumeric known))
  simpa only [Char.ofNat_toNat, known, Bool.not_true, Bool.false_or] using each

theorem isAlphanumeric_toUpper {character : Char} (known : isAlphanumeric character = true) :
    isAlphanumeric character.toUpper = true :=
  of_isAlphanumeric (fun character => isAlphanumeric character.toUpper) (by decide) known

theorem continuesName_of_isAlphanumeric {character : Char} (known : isAlphanumeric character = true) :
    continuesName character = true := by
  rw [continuesName, known, Bool.true_or]

theorem isLetter_eq_not_isDigit {character : Char} (known : isAlphanumeric character = true) :
    isLetter character = !isDigit character :=
  beq_iff_eq.mp
    (of_isAlphanumeric (fun character => isLetter character == !isDigit character) (by decide) known)

end ApiSurface.Text
