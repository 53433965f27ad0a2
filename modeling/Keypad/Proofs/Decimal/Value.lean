import Keypad.Decimal.Shortest
import Keypad.Proofs.Binary64.Nearest

/-!
# Proofs/Decimal/Value — rounding a decimal depends on its value alone

`Decimal.value` is the rational number a decimal stands for.  The magnitude found for a decimal is
the one nearest to that number (`nearest?_eq_some_iff`): the early exits for decimals far out of
range agree with the exact case.  So decimals of one value round alike, with or without trailing
zeros, and the exact decimal of a magnitude rounds to it.
-/

namespace Keypad.Decimal

/-- The number that a decimal stands for. -/
def value (d : Decimal) : ℚ := d.coefficient * 10 ^ d.exponent

theorem ten_zpow (e : ℤ) : (10 : ℚ) ^ e = 10 ^ e.toNat / 10 ^ (-e).toNat := by
  conv_lhs => rw [← Int.toNat_sub_toNat_neg e]
  rw [zpow_sub₀ (by norm_num), zpow_natCast, zpow_natCast]

theorem value_nonneg (d : Decimal) : 0 ≤ d.value := by
  unfold value
  positivity

/-! ## The exact case -/

/-- The magnitude nearest to a decimal, by exact division whatever its exponent is. -/
def nearestExactly? (d : Decimal) : Option Magnitude :=
  Magnitude.nearest? (d.coefficient * 10 ^ d.exponent.toNat * unitsPerOne)
    (10 ^ (-d.exponent).toNat)

/-- A decimal is an exact ratio of units. -/
theorem ratio_eq_value (d : Decimal) :
    ((d.coefficient * 10 ^ d.exponent.toNat * unitsPerOne : ℕ) : ℚ)
      / (10 ^ (-d.exponent).toNat : ℕ) / (unitsPerOne : ℚ) = d.value := by
  have hpos := Magnitude.unitsPerOne_cast_pos (K := ℚ)
  rw [value, ten_zpow]
  push_cast
  field_simp

theorem nearestExactly?_eq_some_iff {d : Decimal} {m : Magnitude} :
    d.nearestExactly? = some m ↔ m.IsNearest d.value := by
  rw [nearestExactly?, Magnitude.nearest?_eq_some_iff (K := ℚ) (by positivity), ratio_eq_value]

/-! ## Early exits -/

/-- A ratio below half a unit rounds to zero. -/
theorem nearest?_of_two_mul_lt {num den : ℕ} (h : 2 * num < den) :
    Magnitude.nearest? num den = some Magnitude.zero := by
  have hdiv : num / den = 0 := Nat.div_eq_of_lt (by omega)
  have hmod : num % den = num := Nat.mod_eq_of_lt (by omega)
  have hstep : Magnitude.stepExponent num den = 0 := by
    rw [Magnitude.stepExponent, hdiv, Nat.log2_zero]
  have hrank : Magnitude.nearestRank num den = 0 := by
    rw [Magnitude.nearestRank_eq, hstep, pow_zero, mul_one, roundQuotient, hdiv, hmod,
      if_pos (Or.inl h), zero_mul]
  rw [Magnitude.nearest?, dif_pos (by rw [hrank]; decide)]
  simp only [hrank]
  rfl

theorem nearestExactly?_of_isNegligible {d : Decimal} (h : d.isNegligible = true) :
    d.nearestExactly? = some Magnitude.zero := by
  refine nearest?_of_two_mul_lt ?_
  have hlog : (d.coefficient.log2 : ℤ) + 1 + unitPlaces + 1 ≤ 3 * -d.exponent :=
    of_decide_eq_true h
  obtain ⟨k, hk⟩ : ∃ k : ℕ, d.exponent = -k := ⟨(-d.exponent).toNat, by omega⟩
  have hlog' : d.coefficient.log2 + 1 + unitPlaces + 1 ≤ 3 * k := by omega
  have hexp : d.exponent.toNat = 0 := by omega
  have hexp' : (-d.exponent).toNat = k := by omega
  rw [hexp, hexp', pow_zero, mul_one, Magnitude.unitsPerOne_eq]
  calc 2 * (d.coefficient * 2 ^ unitPlaces)
      < 2 * (2 ^ (d.coefficient.log2 + 1) * 2 ^ unitPlaces) :=
        Nat.mul_lt_mul_of_pos_left
          (Nat.mul_lt_mul_of_pos_right Nat.lt_log2_self (Nat.two_pow_pos _)) two_pos
    _ = 2 ^ (d.coefficient.log2 + 1 + unitPlaces + 1) := by rw [pow_succ, pow_add]; ring
    _ ≤ 2 ^ (3 * k) := Nat.pow_le_pow_right two_pos hlog'
    _ = 8 ^ k := by rw [pow_mul]; norm_num
    _ ≤ 10 ^ k := Nat.pow_le_pow_left (by norm_num) k

/-- `10 ^ 309` is beyond every magnitude. -/
theorem overflowBound_lt_ten_pow : Magnitude.overflowBound < 10 ^ 309 := by
  have hnat : 2 ^ 1024 < 10 ^ 309 := by decide +kernel
  have hcast : (2 : ℚ) ^ 1024 < 10 ^ 309 := by exact_mod_cast hnat
  have hpos : (0 : ℚ) < 2 ^ 970 := by positivity
  exact (sub_lt_self _ hpos).trans hcast

theorem nearestExactly?_of_overflowExponent_le {d : Decimal} (hc : d.coefficient ≠ 0)
    (h : overflowExponent ≤ d.exponent) : d.nearestExactly? = none := by
  refine Option.eq_none_iff_forall_ne_some.2 fun m hm => ?_
  have hlt := (nearestExactly?_eq_some_iff.1 hm).lt_overflow
  have hcoeff : (1 : ℚ) ≤ d.coefficient := by exact_mod_cast Nat.one_le_iff_ne_zero.2 hc
  have hpow : (10 : ℚ) ^ 309 ≤ 10 ^ d.exponent := by
    rw [← zpow_natCast]
    exact zpow_le_zpow_right₀ (by norm_num) h
  have hvalue : (10 : ℚ) ^ 309 ≤ d.value :=
    hpow.trans (le_mul_of_one_le_left (by positivity) hcoeff)
  rw [Rat.cast_id] at hlt
  exact absurd (overflowBound_lt_ten_pow.trans_le hvalue) hlt.not_gt

/-- **The early exits agree with the exact case.** -/
theorem nearest?_eq_nearestExactly? (d : Decimal) : d.nearest? = d.nearestExactly? := by
  rw [nearest?]
  split
  · rename_i hc
    rw [nearestExactly?, hc, zero_mul, zero_mul]
    exact (nearest?_of_two_mul_lt (by positivity)).symm
  · rename_i hc
    split
    · rename_i hexp
      exact (nearestExactly?_of_overflowExponent_le hc hexp).symm
    · split
      · rename_i hneg
        exact (nearestExactly?_of_isNegligible hneg).symm
      · rfl

/-- **A decimal rounds to the magnitude nearest to its value.** -/
theorem nearest?_eq_some_iff {d : Decimal} {m : Magnitude} :
    d.nearest? = some m ↔ m.IsNearest d.value := by
  rw [nearest?_eq_nearestExactly?, nearestExactly?_eq_some_iff]

/-- **A decimal rounds to no magnitude exactly from the overflow bound on.** -/
theorem nearest?_eq_none_iff {d : Decimal} :
    d.nearest? = none ↔ Magnitude.overflowBound ≤ d.value := by
  rw [nearest?_eq_nearestExactly?, nearestExactly?,
    Magnitude.nearest?_eq_none_iff (K := ℚ) (by positivity), ratio_eq_value, Rat.cast_id]

/-- Decimals of one value round alike. -/
theorem nearest?_congr {d e : Decimal} (h : d.value = e.value) : d.nearest? = e.nearest? := by
  ext m
  rw [nearest?_eq_some_iff, nearest?_eq_some_iff, h]

/-! ## Decimals of one value -/

/-- Trailing zeros make no difference to the value. -/
theorem value_normalize (d : Decimal) : d.normalize.value = d.value := by
  obtain ⟨k, hcoeff, hexp⟩ := exists_normalize d
  rw [value, value, hexp, hcoeff, zpow_add₀ (by norm_num), zpow_natCast]
  push_cast [Nat.pow_eq]
  ring

/-- **The exact decimal of a magnitude has its value.** -/
theorem value_exact (m : Magnitude) : (exact m).value = m.value := by
  have hunits := congrArg (Nat.cast (R := ℚ)) (exact_units m)
  have hpos := Magnitude.unitsPerOne_cast_pos (K := ℚ)
  push_cast [Nat.pow_eq] at hunits
  rw [value, ten_zpow, Magnitude.value_eq_units_div, ← mul_div_assoc,
    div_eq_div_iff (by positivity) hpos.ne', hunits]

end Keypad.Decimal
