import Mathlib
import Keypad.Binary64.Magnitude

/-!
# Proofs/Binary64/Rank — ranks number the magnitudes in increasing order

`Magnitude.rankUnits` continues the units of a magnitude, as a function of its rank, beyond the
greatest one.  A rank written `e * 2 ^ 52 + k` has `k * 2 ^ e` units whenever `k` may be its
significand, also for the `k` at which the exponent changes (`rankUnits_add`).  So the step from one
rank to the next is `2 ^ e` units, and the units grow with the rank (`strictMono_rankUnits`).
-/

namespace Keypad.Magnitude

/-- The units of a rank, on all ranks continued beyond the greatest magnitude. -/
def rankUnits (r : ℕ) : ℕ := (r - (r / 2 ^ 52 - 1) * 2 ^ 52) * 2 ^ (r / 2 ^ 52 - 1)

/-- The first rank beyond the greatest magnitude. -/
def rankEnd : ℕ := 2047 * 2 ^ 52

theorem rank_lt_rankEnd (m : Magnitude) : m.rank < rankEnd := by
  have := m.rank_lt
  norm_num [rankEnd]
  omega

theorem units_eq_rankUnits (m : Magnitude) : m.units = rankUnits m.rank := by
  norm_num [units, significand, exponent, rankUnits, Nat.shiftLeft_eq]

/-- The units of a rank by its exponent and significand; the significand may reach `2 ^ 53`, where
the exponent changes. -/
theorem rankUnits_add {e k : ℕ} (hk : k ≤ 2 ^ 53) (he : e = 0 ∨ 2 ^ 52 ≤ k) :
    rankUnits (e * 2 ^ 52 + k) = k * 2 ^ e := by
  rcases lt_trichotomy k (2 ^ 52) with hlt | rfl | hgt
  · obtain rfl : e = 0 := he.resolve_right (by omega)
    have hdiv : (0 * 2 ^ 52 + k) / 2 ^ 52 - 1 = 0 := by omega
    rw [rankUnits, hdiv]
    simp
  · have hdiv : (e * 2 ^ 52 + 2 ^ 52) / 2 ^ 52 - 1 = e := by omega
    rw [rankUnits, hdiv, Nat.add_sub_cancel_left]
  · rcases hk.lt_or_eq with hlt | rfl
    · have hdiv : (e * 2 ^ 52 + k) / 2 ^ 52 - 1 = e := by omega
      rw [rankUnits, hdiv, Nat.add_sub_cancel_left]
    · have hdiv : (e * 2 ^ 52 + 2 ^ 53) / 2 ^ 52 - 1 = e + 1 := by omega
      have hsub : e * 2 ^ 52 + 2 ^ 53 - (e + 1) * 2 ^ 52 = 2 ^ 52 := by omega
      rw [rankUnits, hdiv, hsub, pow_succ 2 e]
      ring

/-- Each rank has an exponent and a significand. -/
theorem exists_rank_eq (r : ℕ) :
    ∃ e k, r = e * 2 ^ 52 + k ∧ k < 2 ^ 53 ∧ (e = 0 ∨ 2 ^ 52 ≤ k) :=
  ⟨r / 2 ^ 52 - 1, r - (r / 2 ^ 52 - 1) * 2 ^ 52, by omega, by omega, by omega⟩

/-- **Units grow with the rank.** -/
theorem strictMono_rankUnits : StrictMono rankUnits := by
  refine strictMono_nat_of_lt_succ fun r => ?_
  obtain ⟨e, k, rfl, hk, he⟩ := exists_rank_eq r
  rw [Nat.add_assoc, rankUnits_add hk.le he, rankUnits_add hk (by omega)]
  exact Nat.mul_lt_mul_of_pos_right k.lt_succ_self (Nat.two_pow_pos e)

/-- A significand is even exactly at the even ranks. -/
theorem even_significand_iff {m : Magnitude} : Even m.significand ↔ Even m.rank := by
  have hrank : m.rank = m.exponent * 0x10000000000000 + m.significand := by
    unfold significand exponent
    omega
  rw [hrank, Nat.even_add]
  have : Even (m.exponent * 0x10000000000000) := Even.mul_left (by decide) _
  simp [this]

theorem rank_injective {m m' : Magnitude} (h : m.rank = m'.rank) : m = m' := by
  obtain ⟨r, hr⟩ := m
  obtain ⟨r', hr'⟩ := m'
  obtain rfl : r = r' := h
  rfl

/-! ## Values -/

/-- The number that a magnitude stands for. -/
def value (m : Magnitude) : ℚ := m.significand * 2 ^ ((m.exponent : ℤ) - 1074)

theorem unitsPerOne_eq : unitsPerOne = 2 ^ unitPlaces := by
  rw [unitsPerOne, Nat.one_shiftLeft]

/-- The number of a magnitude is counted in units. -/
theorem value_eq_units_div (m : Magnitude) : m.value = (m.units : ℚ) / (unitsPerOne : ℚ) := by
  have hplaces : ((m.exponent : ℤ) - 1074 : ℤ) = (m.exponent : ℤ) - (unitPlaces : ℤ) := by
    rw [unitPlaces_eq]
    rfl
  rw [value, hplaces, zpow_sub₀ two_ne_zero, units, Nat.shiftLeft_eq, unitsPerOne_eq]
  push_cast
  rw [zpow_natCast, zpow_natCast, mul_div_assoc]

theorem value_nonneg (m : Magnitude) : 0 ≤ m.value := by
  rw [value_eq_units_div]
  positivity

@[simp] theorem value_zero : zero.value = 0 := by
  rw [value_eq_units_div, units_zero, Nat.cast_zero, zero_div]

theorem value_lt_value {m m' : Magnitude} (h : m.rank < m'.rank) : m.value < m'.value := by
  have hpos : (0 : ℚ) < unitsPerOne := Nat.cast_pos.2 unitsPerOne_pos
  rw [value_eq_units_div, value_eq_units_div, div_lt_div_iff_of_pos_right hpos,
    units_eq_rankUnits, units_eq_rankUnits]
  exact Nat.cast_lt.2 (strictMono_rankUnits h)

/-- Magnitudes of one value are one magnitude. -/
theorem value_injective {m m' : Magnitude} (h : m.value = m'.value) : m = m' := by
  refine rank_injective (le_antisymm (not_lt.1 fun hlt => ?_) (not_lt.1 fun hlt => ?_))
  · exact (value_lt_value hlt).ne' h
  · exact (value_lt_value hlt).ne h

end Keypad.Magnitude
