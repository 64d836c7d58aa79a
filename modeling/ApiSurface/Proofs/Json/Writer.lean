/-
This file proves that writing a value always writes something.
-/

import ApiSurface.Json.Writer
import Mathlib.Data.Nat.Digits.Lemmas

namespace ApiSurface

namespace Decimal

theorem natText_ne_nil (number : Nat) : natText number ≠ [] :=
  Nat.toDigits_ne_nil

theorem Digits.text_ne_nil (decimal : Digits) : decimal.text ≠ [] := by
  unfold Digits.text
  dsimp only
  split_ifs <;> simp

theorem Binary64.text_ne_nil (number : Binary64) : number.text ≠ [] := by
  unfold Binary64.text
  dsimp only
  split
  · exact List.cons_ne_nil _ _
  · split
    · exact List.cons_ne_nil _ _
    · exact number.shortest.text_ne_nil

theorem intText_ne_nil (number : Int) : intText number ≠ [] := by
  unfold intText
  split
  · exact List.cons_ne_nil _ _
  · exact natText_ne_nil _

end Decimal

namespace Json

theorem Number.text_ne_nil (number : Number) : number.text ≠ [] :=
  match number with
  | .int value => Decimal.intText_ne_nil value
  | .double value => value.text_ne_nil

theorem compactChars_ne_nil (value : Json) : value.compactChars ≠ [] := by
  cases value with
  | bool value => cases value <;> exact List.cons_ne_nil _ _
  | number value => exact value.text_ne_nil
  | _ => exact List.cons_ne_nil _ _

end Json

end ApiSurface
