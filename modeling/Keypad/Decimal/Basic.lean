import Keypad.Binary64.Basic

/-!
# Decimal/Basic — decimal numbers `coefficient * 10 ^ exponent`, and rounding them to binary64

`Decimal.nearest?` rounds a decimal of any size exactly.  Decimals far beyond the greatest or far
below the least magnitude are recognised by their exponent and length alone, so that rounding never
forms a power of ten larger than the text that spells the decimal.  Conversely every magnitude *is*
a decimal, `Decimal.exact`, since `2 ^ -k = 5 ^ k * 10 ^ -k`.
-/

namespace Keypad

/-- The decimal number `coefficient * 10 ^ exponent`, which is not negative. -/
structure Decimal where
  coefficient : Nat
  exponent : Int
deriving DecidableEq

namespace Decimal

/-! ## Rounding to a magnitude -/

/-- Powers of ten from `10 ^ 309` on are beyond every magnitude. -/
def overflowExponent : Int := 309

/-- Whether a decimal is below half a unit of `2 ^ -1074` because of its exponent: its coefficient
is less than `2 ^ (log2 + 1)`, and `10 ^ e < 2 ^ (3 * e)` for negative exponents. -/
def isNegligible (d : Decimal) : Bool :=
  (d.coefficient.log2 : Int) + 1 + unitPlaces + 1 ≤ 3 * -d.exponent

/-- The magnitude nearest to a decimal, ties to even; none if the decimal rounds to `2 ^ 1024` or
beyond. -/
def nearest? (d : Decimal) : Option Magnitude :=
  if d.coefficient = 0 then some Magnitude.zero
  else if overflowExponent ≤ d.exponent then none
  else if d.isNegligible then some Magnitude.zero
  else Magnitude.nearest?
    (d.coefficient * Nat.pow 10 d.exponent.toNat * unitsPerOne) (Nat.pow 10 (-d.exponent).toNat)

/-! ## Magnitudes as decimals -/

/-- A magnitude as a decimal, exactly. -/
def exact (m : Magnitude) : Decimal :=
  if unitPlaces ≤ m.exponent then ⟨m.significand <<< (m.exponent - unitPlaces), 0⟩
  else ⟨m.significand * Nat.pow 5 (unitPlaces - m.exponent), -(unitPlaces - m.exponent : Nat)⟩

/-- **The exact decimal of a magnitude has its units**: multiplied out, neither side is divided. -/
theorem exact_units (m : Magnitude) :
    (exact m).coefficient * Nat.pow 10 (exact m).exponent.toNat * unitsPerOne =
      m.units * Nat.pow 10 (-(exact m).exponent).toNat := by
  unfold exact
  split
  · rename_i h
    have hone := unitsPerOne_shiftLeft h
    rw [Nat.shiftLeft_eq, Nat.one_shiftLeft] at hone
    simp only [Magnitude.units, Nat.shiftLeft_eq, ← hone, Int.toNat_zero, Int.neg_zero]
    ac_rfl
  · rename_i h
    have hone := one_shiftLeft_shiftLeft (Nat.le_of_not_le h)
    rw [Nat.shiftLeft_eq, Nat.one_shiftLeft] at hone
    have hten : Nat.pow 10 (unitPlaces - m.exponent) =
        Nat.pow 5 (unitPlaces - m.exponent) * Nat.pow 2 (unitPlaces - m.exponent) :=
      Nat.mul_pow 5 2 _
    simp only [Magnitude.units, Nat.shiftLeft_eq, ← hone, Int.neg_neg, Int.toNat_natCast,
      Int.toNat_neg_natCast, hten, Nat.pow_eq, Nat.pow_zero, Nat.mul_one]
    ac_rfl

/-! ## Trailing zeros -/

/-- The same number with the least coefficient: no trailing zero, unless the number is zero. -/
def normalize (d : Decimal) : Decimal :=
  if d.coefficient ≠ 0 ∧ d.coefficient % 10 = 0 then
    normalize ⟨d.coefficient / 10, d.exponent + 1⟩
  else d
termination_by d.coefficient
decreasing_by omega

/-- The coefficient of a normalized decimal ends in zero only if it is zero. -/
theorem normalize_coefficient_mod (d : Decimal) (h : d.coefficient ≠ 0) :
    d.normalize.coefficient % 10 ≠ 0 := by
  fun_induction normalize d with
  | case1 d hd ih => exact ih (by simp only; omega)
  | case2 d hd => exact fun h0 => hd ⟨h, h0⟩

/-- Only zeros are removed, each for one step of the exponent. -/
theorem exists_normalize (d : Decimal) :
    ∃ k : Nat, d.coefficient = d.normalize.coefficient * Nat.pow 10 k ∧
      d.normalize.exponent = d.exponent + k := by
  fun_induction normalize d with
  | case1 d hd ih =>
    obtain ⟨k, hc, he⟩ := ih
    refine ⟨k + 1, ?_, by simp only at he; omega⟩
    rw [Nat.pow_eq, Nat.pow_succ, ← Nat.mul_assoc, ← Nat.pow_eq, ← hc]
    simp only
    omega
  | case2 d hd => exact ⟨0, by simp⟩

end Decimal

end Keypad
