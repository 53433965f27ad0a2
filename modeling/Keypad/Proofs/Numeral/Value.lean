import Keypad.Numeral.Layout
import Keypad.Proofs.Decimal.Value

/-!
# Proofs/Numeral/Value — the number that a numeral denotes, and that layout keeps it

`Numeral.value` reads a numeral place by place: whole digits, tenths and what follows them, the
power of ten, the sign.  The decimal of a numeral has this value without the sign, so the numeral is
rounded from exactly the number it denotes (`toBinary64?_eq_some_iff`).  Written in full or with an
exponent part, a decimal keeps its value.
-/

namespace Keypad

/-- Digits after other digits, by their places. -/
theorem Digit.value_append (ds es : List Digit) :
    value (ds ++ es) = value ds * 10 ^ es.length + value es := by
  induction es using List.reverseRecOn with
  | nil => simp
  | append_singleton es e ih =>
    rw [← List.append_assoc, value_concat, ih, value_concat, List.length_append,
      List.length_singleton, pow_succ]
    ring

theorem Digit.value_zeros (k : ℕ) : value (List.replicate k 0) = 0 := by
  induction k with
  | zero => rfl
  | succ k ih => rw [List.replicate_succ', value_concat, ih]; rfl

namespace Numeral

/-- The digits after the point. -/
def fractionDigits (n : Numeral) : List Digit := n.fraction.getD []

/-- The power of ten of the exponent part. -/
def power (n : Numeral) : ℤ :=
  match n.scale with
  | none => 0
  | some s => s.value

/-- The number that a numeral denotes. -/
def value (n : Numeral) : ℚ :=
  (if n.isNegative then -1 else 1)
    * ((Digit.value n.whole + Digit.value n.fractionDigits / 10 ^ n.fractionDigits.length)
      * 10 ^ n.power)

theorem value_decimal (n : Numeral) :
    n.decimal.value
      = (Digit.value n.whole + Digit.value n.fractionDigits / 10 ^ n.fractionDigits.length)
        * 10 ^ n.power := by
  have hdecimal : n.decimal
      = ⟨Digit.value (n.whole ++ n.fractionDigits), n.power - n.fractionDigits.length⟩ := rfl
  rw [hdecimal, Decimal.value, Digit.value_append, zpow_sub₀ (by norm_num), zpow_natCast]
  push_cast
  field_simp

/-- **The decimal of a numeral has the numeral's value**, without the sign. -/
theorem value_eq (n : Numeral) :
    n.value = if n.isNegative then -n.decimal.value else n.decimal.value := by
  rw [value, value_decimal]
  split
  · rw [neg_one_mul]
  · rw [one_mul]

theorem abs_value (n : Numeral) : |n.value| = n.decimal.value := by
  have hnonneg := n.decimal.value_nonneg
  rw [value_eq]
  split
  · rw [abs_neg, abs_of_nonneg hnonneg]
  · exact abs_of_nonneg hnonneg

theorem value_nonneg_of_sign_eq_none {n : Numeral} (h : n.sign = none) : 0 ≤ n.value := by
  have hnegative : n.isNegative = false := by
    rw [isNegative, h]
    rfl
  rw [value_eq, hnegative]
  exact n.decimal.value_nonneg

/-- **A numeral is rounded from the number it denotes**, and keeps its sign. -/
theorem toBinary64?_eq_some_iff {n : Numeral} {x : Binary64} :
    n.toBinary64? = some x ↔ ∃ m : Magnitude, m.IsNearest |n.value| ∧
      x = .finite n.isNegative m := by
  rw [toBinary64?, Option.map_eq_some_iff, abs_value]
  refine exists_congr fun m => ?_
  rw [Decimal.nearest?_eq_some_iff, eq_comm (a := x)]

/-- **A numeral is refused exactly if it is too great.** -/
theorem toBinary64?_eq_none_iff {n : Numeral} :
    n.toBinary64? = none ↔ Magnitude.overflowBound ≤ |n.value| := by
  rw [toBinary64?, Option.map_eq_none_iff, Decimal.nearest?_eq_none_iff, abs_value]

/-! ## Layout -/

@[simp] theorem isNegative_positional (negative : Bool) (d : Decimal) :
    (positional negative d).isNegative = negative := by
  rcases negative with _ | _ <;> rfl

@[simp] theorem isNegative_scientific (negative : Bool) (d : Decimal) :
    (scientific negative d).isNegative = negative := by
  rcases negative with _ | _ <;> rfl

theorem value_padded (places n : ℕ) : Digit.value (padded places n) = n := by
  rw [padded, Digit.value_append, Digit.value_zeros, Digit.value_spell, zero_mul, zero_add]

/-- Written in full, a decimal has all its places as digits. -/
theorem decimal_positional (negative : Bool) (d : Decimal) :
    (positional negative d).decimal
      = ⟨d.coefficient * 10 ^ d.exponent.toNat, -((-d.exponent).toNat : ℤ)⟩ := by
  set ds := padded ((-d.exponent).toNat + 1) d.coefficient
    ++ List.replicate d.exponent.toNat 0 with hds
  have hlength : (-d.exponent).toNat ≤ ds.length := by
    have := le_length_padded ((-d.exponent).toNat + 1) d.coefficient
    rw [hds, List.length_append]
    omega
  have hvalue : Digit.value ds = d.coefficient * 10 ^ d.exponent.toNat := by
    rw [hds, Digit.value_append, value_padded, Digit.value_zeros, List.length_replicate, add_zero]
  have hdigits : (positional negative d).digits = ds := by
    simp only [positional, digits, getD_fractionOf, List.take_append_drop, ← hds]
  have hfraction : (positional negative d).fraction.getD []
      = ds.drop (ds.length - (-d.exponent).toNat) := getD_fractionOf _
  rw [decimal, hdigits, hvalue, hfraction, List.length_drop, Nat.sub_sub_self hlength]
  simp [positional]

/-- **Written in full, a decimal keeps its value.** -/
theorem value_decimal_positional (negative : Bool) (d : Decimal) :
    (positional negative d).decimal.value = d.value := by
  rw [decimal_positional, Decimal.value, Decimal.value, Decimal.ten_zpow d.exponent, zpow_neg,
    zpow_natCast]
  push_cast
  rw [mul_assoc, div_eq_mul_inv]

/-- **With an exponent part a decimal stays as it is.** -/
theorem decimal_scientific (negative : Bool) (d : Decimal) :
    (scientific negative d).decimal = d := by
  have hfraction : (scientific negative d).fraction.getD []
      = (Digit.spell d.coefficient).drop 1 := getD_fractionOf _
  have hscale : (scientific negative d).scale = some (scaleOf (leadingPower d)) := rfl
  rw [decimal, digits_scientific, Digit.value_spell, hfraction, hscale, List.length_drop]
  simp only [value_scaleOf, leadingPower, add_sub_cancel_right]

end Numeral

end Keypad
