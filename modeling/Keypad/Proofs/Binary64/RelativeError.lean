import Keypad.Proofs.Binary64.SquareRoot

/-!
# Proofs/Binary64/RelativeError — how far rounding moves a number, and when it moves it back

From `2 ^ -1022` on, rounding moves a number by a part in `2 ^ 53` of it at most
(`IsNearest.abs_sub_le_of_two_zpow_le`).  Conversely a number is rounded to a magnitude if it is
less than half a step away from it (`isNearest_of_abs_sub_lt`).  The two meet in a square root: it
halves the relative error of a rounded square, so that the root of the square is rounded to the
number again (`Binary64.exists_sqrt_mul_self`).
-/

namespace Keypad

namespace Magnitude

variable {K : Type*} [Field K] [LinearOrder K] [IsStrictOrderedRing K]

/-! ## The error of a rounded number -/

/-- A ratio of `2 ^ 52` units or more is off by a part in `2 ^ 53` of it at most. -/
theorem abs_rankUnits_nearestRank_sub_le {num den : ℕ} (hden : 0 < den) (h : 2 ^ 52 * den ≤ num) :
    |(rankUnits (nearestRank num den) : K) - num / den| ≤ num / den / 2 ^ 53 := by
  obtain ⟨hlt, hge⟩ := @stepExponent_bounds num den hden
  rw [nearestRank_eq]
  set e := stepExponent num den
  have hD : 0 < den * 2 ^ e := Nat.mul_pos hden (Nat.two_pow_pos e)
  obtain ⟨hk, hk'⟩ := roundQuotient_bounds hD hlt hge
  have hpow : (0 : K) < 2 ^ e := by positivity
  have hstep : 2 ^ 52 * (den * 2 ^ e) ≤ num := by
    rcases hge with h0 | hge
    · rwa [h0, pow_zero, mul_one]
    · exact hge
  have hle : (2 : K) ^ 52 * 2 ^ e ≤ num / den := by
    rw [le_div_iff₀ (Nat.cast_pos.2 hden), mul_assoc, mul_comm ((2 : K) ^ e)]
    exact_mod_cast hstep
  rw [abs_rankUnits_add_sub hk hk']
  calc |(roundQuotient num (den * 2 ^ e) : K) - num / (den * 2 ^ e : ℕ)| * 2 ^ e
      ≤ 1 / 2 * 2 ^ e :=
        mul_le_mul_of_nonneg_right (abs_roundQuotient_sub_le_half hD num) hpow.le
    _ = 2 ^ 52 * 2 ^ e / 2 ^ 53 := by ring
    _ ≤ num / den / 2 ^ 53 := div_le_div_of_nonneg_right hle (by positivity)

theorem rank_of_nearest?_eq_some {num den : ℕ} {m : Magnitude} (h : nearest? num den = some m) :
    m.rank = nearestRank num den := by
  rw [nearest?] at h
  split at h
  · rw [← Option.some.inj h]
  · cases h

theorem natCast_unitsPerOne : (unitsPerOne : ℚ) = 2 ^ (1074 : ℤ) := by
  rw [unitsPerOne_eq, Nat.cast_pow, ← zpow_natCast, unitPlaces_eq]
  rfl

/-- **A rounded number is off by a part in `2 ^ 53` of it at most**, from `2 ^ -1022` on. -/
theorem IsNearest.abs_sub_le_of_two_zpow_le {q : ℚ} {m : Magnitude} (h : m.IsNearest q)
    (hq : 2 ^ (-1022 : ℤ) ≤ q) : |m.value - q| ≤ q / 2 ^ 53 := by
  have hpos : (0 : ℚ) < unitsPerOne := unitsPerOne_cast_pos
  have hnonneg : 0 ≤ q.num := Rat.num_nonneg.2 (le_trans (by positivity) hq)
  have hratio : q * unitsPerOne = (q.num.toNat * unitsPerOne : ℕ) / q.den := by
    have hcast : (q.num.toNat : ℚ) = q.num := by exact_mod_cast Int.toNat_of_nonneg hnonneg
    rw [Nat.cast_mul, hcast, mul_div_right_comm, Rat.num_div_den]
  have hnear : nearest? (q.num.toNat * unitsPerOne) q.den = some m := by
    rw [nearest?_eq_some_iff (K := ℚ) q.pos, ← hratio, mul_div_cancel_right₀ _ hpos.ne']
    exact h
  have hlarge : 2 ^ 52 * q.den ≤ q.num.toNat * unitsPerOne := by
    have hle : (2 : ℚ) ^ 52 ≤ q * unitsPerOne := by
      calc (2 : ℚ) ^ 52 = 2 ^ (-1022 : ℤ) * 2 ^ (1074 : ℤ) := by
            rw [← zpow_add₀ two_ne_zero]
            norm_num
        _ ≤ q * unitsPerOne := by
            rw [← natCast_unitsPerOne]
            exact mul_le_mul_of_nonneg_right hq hpos.le
    rw [hratio, le_div_iff₀ (Nat.cast_pos.2 q.pos)] at hle
    exact_mod_cast hle
  have herror := abs_rankUnits_nearestRank_sub_le (K := ℚ) q.pos hlarge
  rw [← rank_of_nearest?_eq_some hnear, ← hratio] at herror
  have hvalue := abs_value_sub m (q * unitsPerOne)
  rw [mul_div_cancel_right₀ _ hpos.ne', Rat.cast_id] at hvalue
  rw [hvalue, div_le_iff₀ hpos, div_mul_eq_mul_div]
  exact herror

/-! ## Steps -/

theorem rank_eq (m : Magnitude) : m.rank = m.exponent * 2 ^ 52 + m.significand := by
  unfold significand exponent
  omega

/-- The step from a magnitude to the next one. -/
def step (m : Magnitude) : ℚ := 2 ^ ((m.exponent : ℤ) - 1074)

theorem value_eq_mul_step (m : Magnitude) : m.value = m.significand * m.step := rfl

theorem step_pos (m : Magnitude) : 0 < m.step := by
  unfold step
  positivity

theorem step_mul_unitsPerOne (m : Magnitude) : m.step * unitsPerOne = 2 ^ m.exponent := by
  rw [step, natCast_unitsPerOne, ← zpow_add₀ two_ne_zero, sub_add_cancel, zpow_natCast]

/-- **A number less than half a step away from a magnitude is rounded to it**, unless the
magnitude is one at which the step changes. -/
theorem isNearest_of_abs_sub_lt {q : K} {m : Magnitude} (hm : 2 ^ 52 < m.significand)
    (h : |q - m.value| < m.step / 2) : m.IsNearest q := by
  have hpos : (0 : K) < unitsPerOne := unitsPerOne_cast_pos
  have hstep : (m.step : K) * unitsPerOne = 2 ^ m.exponent := by
    exact_mod_cast congrArg (Rat.cast (K := K)) m.step_mul_unitsPerOne
  have hvalue : (m.value : K) = m.significand * m.step := by
    rw [value_eq_mul_step, Rat.cast_mul, Rat.cast_natCast]
  have hlt := m.significand_lt
  obtain ⟨k, hk⟩ : ∃ k, m.significand = k + 1 := ⟨m.significand - 1, by omega⟩
  have hrank : m.rank = m.exponent * 2 ^ 52 + (k + 1) := by rw [← hk, ← rank_eq]
  rw [hvalue, hk, Nat.cast_add, Nat.cast_one, abs_lt] at h
  have hlow := mul_lt_mul_of_pos_right h.1 hpos
  have hhigh := mul_lt_mul_of_pos_right h.2 hpos
  have hnear : IsNearestRank (q * unitsPerOne) m.rank := by
    refine isNearestRank_of_between (fun s hs => ?_) ?_
    · obtain rfl : s = m.exponent * 2 ^ 52 + k := by omega
      rw [hrank, rankUnits_add (by omega) (by omega), rankUnits_add (by omega) (by omega)]
      push_cast
      rw [← hstep]
      linarith
    · rw [hrank, Nat.add_assoc _ (k + 1), rankUnits_add (by omega) (by omega),
        rankUnits_add (by omega) (by omega)]
      push_cast
      rw [← hstep]
      linarith
  have hnear' := isNearest_of_isNearestRank hnear
  rwa [mul_div_cancel_right₀ _ hpos.ne'] at hnear'

/-- **Powers of two are magnitudes**, from `2 ^ -1022` to `2 ^ 1023`. -/
theorem exists_value_eq_two_zpow {j : ℤ} (hlow : -1022 ≤ j) (hhigh : j ≤ 1023) :
    ∃ m : Magnitude, m.value = 2 ^ j := by
  obtain ⟨e, rfl⟩ : ∃ e : ℕ, j = e - 1022 := ⟨(j + 1022).toNat, by omega⟩
  have hrank : e * 2 ^ 52 + 2 ^ 52 < 0x7FF0000000000000 := by omega
  refine ⟨⟨e * 2 ^ 52 + 2 ^ 52, hrank⟩, ?_⟩
  rw [value_eq_units_div, units_eq_rankUnits, rankUnits_add (by norm_num) (Or.inr le_rfl),
    natCast_unitsPerOne, Nat.cast_mul, Nat.cast_pow, Nat.cast_pow, Nat.cast_two, ← zpow_natCast,
    ← zpow_natCast, ← zpow_add₀ two_ne_zero, ← zpow_sub₀ two_ne_zero]
  exact congrArg _ (by push_cast; ring)

theorem two_zpow_lt_overflowBound {j : ℤ} (hlow : -1022 ≤ j) (hhigh : j ≤ 1023) :
    2 ^ j < overflowBound := by
  obtain ⟨p, hp⟩ := exists_value_eq_two_zpow hlow hhigh
  have hlt := (isNearest_value (K := ℚ) p).lt_overflow
  rwa [Rat.cast_id, Rat.cast_id, hp] at hlt

/-! ## The root of a rounded square -/

/-- A significand `k` of 53 binary digits and a step `g`: the root of the square of `k * g`, off by
a part in `2 ^ 53`, is less than half a step away from `k * g`. -/
theorem abs_sqrt_sub_lt {k g y : ℝ} (hk : 2 ^ 52 ≤ k) (hk' : k + 1 ≤ 2 ^ 53) (hg : 0 < g)
    (hy : |y - k * g * (k * g)| ≤ k * g * (k * g) / 2 ^ 53) : |√y - k * g| < g / 2 := by
  have hgg : 0 < g * g := mul_pos hg hg
  have herror : k * k / 2 ^ 53 ≤ k - 1 / 2 := by
    have hmul : k * (k + 1) ≤ k * 2 ^ 53 := mul_le_mul_of_nonneg_left hk' (by linarith)
    rw [div_le_iff₀ (by positivity)]
    linarith
  have hbound : k * g * (k * g) / 2 ^ 53 ≤ (k - 1 / 2) * (g * g) := by
    calc k * g * (k * g) / 2 ^ 53 = k * k / 2 ^ 53 * (g * g) := by ring
      _ ≤ (k - 1 / 2) * (g * g) := mul_le_mul_of_nonneg_right herror hgg.le
  obtain ⟨hlow, hhigh⟩ := abs_le.1 (hy.trans hbound)
  have hkg : 1 * g ≤ k * g := mul_le_mul_of_nonneg_right (by linarith) hg.le
  have hlt : k * g - g / 2 < √y := by
    rw [Real.lt_sqrt (by linarith)]
    linarith
  have hgt : √y < k * g + g / 2 := by
    rw [Real.sqrt_lt' (by linarith)]
    linarith
  rw [abs_lt]
  constructor <;> linarith

variable {m y : Magnitude}

theorem exponent_pos (h : 2 ^ (-511 : ℤ) ≤ m.value) : 0 < m.exponent := by
  by_contra he
  have hsignificand : (m.significand : ℚ) < 2 ^ (53 : ℤ) := by exact_mod_cast m.significand_lt
  have hvalue : m.value < 2 ^ (-1021 : ℤ) := by
    calc m.value = m.significand * 2 ^ (-1074 : ℤ) := by
          rw [value_eq_mul_step, step, Nat.eq_zero_of_not_pos he]
          norm_num
      _ < 2 ^ (53 : ℤ) * 2 ^ (-1074 : ℤ) := mul_lt_mul_of_pos_right hsignificand (by positivity)
      _ = 2 ^ (-1021 : ℤ) := by
          rw [← zpow_add₀ two_ne_zero]
          norm_num
  have hle : (2 : ℚ) ^ (-1021 : ℤ) ≤ 2 ^ (-511 : ℤ) :=
    zpow_le_zpow_right₀ one_le_two (by norm_num)
  linarith

/-- The square of a power of two is rounded to itself. -/
theorem value_eq_mul_self (hm : m.significand = 2 ^ 52) (hlow : 2 ^ (-511 : ℤ) ≤ m.value)
    (hhigh : m.value ≤ 2 ^ (511 : ℤ)) (h : y.IsNearest (m.value * m.value)) :
    y.value = m.value * m.value := by
  have hvalue : m.value = 2 ^ ((m.exponent : ℤ) - 1022) := by
    rw [value_eq_mul_step, hm, step, Nat.cast_pow, Nat.cast_two, ← zpow_natCast,
      ← zpow_add₀ two_ne_zero]
    exact congrArg _ (by push_cast; ring)
  rw [hvalue, zpow_le_zpow_iff_right₀ one_lt_two] at hlow hhigh
  obtain ⟨p, hp⟩ := exists_value_eq_two_zpow
    (j := (m.exponent : ℤ) - 1022 + ((m.exponent : ℤ) - 1022)) (by omega) (by omega)
  rw [zpow_add₀ two_ne_zero, ← hvalue] at hp
  have hnear : p.IsNearest (m.value * m.value) := hp ▸ p.isNearest_value_rat
  rw [h.eq hnear, hp]

/-- **The root of the rounded square of a magnitude is rounded to the magnitude.**  Between the two
bounds the square neither overflows nor loses precision. -/
theorem isNearest_sqrt (hlow : 2 ^ (-511 : ℤ) ≤ m.value) (hhigh : m.value ≤ 2 ^ (511 : ℤ))
    (h : y.IsNearest (m.value * m.value)) : m.IsNearest √(y.value : ℝ) := by
  have hnonneg : (0 : ℝ) ≤ m.value := Rat.cast_nonneg.2 m.value_nonneg
  rcases (le_significand (exponent_pos hlow)).eq_or_lt with hk | hk
  · rw [value_eq_mul_self (by omega) hlow hhigh h, Rat.cast_mul, Real.sqrt_mul_self hnonneg]
    exact isNearest_value m
  · have hsquare : (2 : ℚ) ^ (-1022 : ℤ) ≤ m.value * m.value := by
      calc (2 : ℚ) ^ (-1022 : ℤ) = 2 ^ (-511 : ℤ) * 2 ^ (-511 : ℤ) := by
            rw [← zpow_add₀ two_ne_zero]
            norm_num
        _ ≤ m.value * m.value := mul_le_mul hlow hlow (by positivity) m.value_nonneg
    have hlt := m.significand_lt
    have hk' : (2 : ℝ) ^ 52 ≤ m.significand := by
      exact_mod_cast (by omega : 2 ^ 52 ≤ m.significand)
    have hk'' : (m.significand : ℝ) + 1 ≤ 2 ^ 53 := by
      exact_mod_cast (by omega : m.significand + 1 ≤ 2 ^ 53)
    have hvalue : (m.value : ℝ) = m.significand * m.step := by
      rw [value_eq_mul_step, Rat.cast_mul, Rat.cast_natCast]
    have herror : |(y.value : ℝ) - m.value * m.value| ≤ m.value * m.value / 2 ^ 53 := by
      exact_mod_cast h.abs_sub_le_of_two_zpow_le hsquare
    refine isNearest_of_abs_sub_lt (by omega) ?_
    rw [hvalue] at herror ⊢
    exact abs_sqrt_sub_lt hk' hk'' (Rat.cast_pos.2 m.step_pos) herror

end Magnitude

namespace Binary64

variable {s : Bool} {m : Magnitude}

/-- **Squaring and taking the root is exact**: the square is finite and its root is rounded to the
number again, without its sign. -/
theorem exists_sqrt_mul_self (hlow : 2 ^ (-511 : ℤ) ≤ m.value) (hhigh : m.value ≤ 2 ^ (511 : ℤ)) :
    ∃ y, finite s m * finite s m = finite false y ∧ sqrt (finite false y) = finite false m := by
  have habs : |signedValue s m * signedValue s m| = m.value * m.value := by
    rw [abs_mul, abs_signedValue_eq]
  have hsquare : m.value * m.value < Magnitude.overflowBound := by
    calc m.value * m.value ≤ 2 ^ (511 : ℤ) * 2 ^ (511 : ℤ) :=
          mul_le_mul hhigh hhigh m.value_nonneg (by positivity)
      _ = 2 ^ (1022 : ℤ) := by
          rw [← zpow_add₀ two_ne_zero]
          norm_num
      _ < Magnitude.overflowBound :=
          Magnitude.two_zpow_lt_overflowBound (by norm_num) (by norm_num)
  have hmul := isRounded_mul s s m m
  rw [Bool.xor_self] at hmul
  obtain ⟨y, hy, hnear⟩ := hmul.exists_eq_finite (mul_self_nonneg _) (by rwa [habs, Rat.cast_id])
  rw [habs] at hnear
  have hsqrt := isRounded_sqrt (isSignOf_signedValue false y)
  refine ⟨y, hy, hsqrt.eq (isRounded_finite (Real.sqrt_nonneg _) ?_)⟩
  rw [abs_of_nonneg (Real.sqrt_nonneg _)]
  exact Magnitude.isNearest_sqrt hlow hhigh hnear

end Binary64

end Keypad
