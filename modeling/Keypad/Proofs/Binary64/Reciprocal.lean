import Keypad.Proofs.Binary64.RelativeError

/-!
# Proofs/Binary64/Reciprocal — the reciprocal of a rounded reciprocal

The bounds `2 ^ -1022` and `2 ^ 1022` are magnitudes and reciprocals of each other, so the
reciprocal of a number between them is rounded to a number between them
(`IsNearest.bounds_of_inv`).  There both of two reciprocals in a row keep their full precision, and
the second is off from the number at the start by a part in `2 ^ 51` of it at most
(`IsNearest.abs_sub_le_of_inv_inv`).
-/

namespace Keypad

/-! ## Errors of reciprocals -/

variable {v y w : ℚ}

/-- A reciprocal that is off by a part in `2 ^ 53` makes a product with the number that is. -/
theorem abs_mul_sub_one_le (hv : 0 < v) (h : |y - v⁻¹| ≤ v⁻¹ / 2 ^ 53) :
    |y * v - 1| ≤ 1 / 2 ^ 53 := by
  calc |y * v - 1| = |y - v⁻¹| * v := by
        rw [← abs_of_pos hv, ← abs_mul, abs_of_pos hv, sub_mul, inv_mul_cancel₀ hv.ne']
    _ ≤ v⁻¹ / 2 ^ 53 * v := mul_le_mul_of_nonneg_right h hv.le
    _ = 1 / 2 ^ 53 := by rw [div_mul_eq_mul_div, inv_mul_cancel₀ hv.ne']

/-- **Two reciprocals in a row**, each off by a part in `2 ^ 53`, are off by a part in `2 ^ 51`:
the second error is a part of the reciprocal of `y`, which is no greater than twice `v`. -/
theorem abs_sub_le_of_abs_sub_inv_le (hv : 0 < v) (hy : 0 < y)
    (hfirst : |y - v⁻¹| ≤ v⁻¹ / 2 ^ 53) (hsecond : |w - y⁻¹| ≤ y⁻¹ / 2 ^ 53) :
    |w - v| ≤ 2 ^ (-51 : ℤ) * v := by
  have hyv := abs_mul_sub_one_le hv hfirst
  have hwy := abs_mul_sub_one_le hy hsecond
  have hhalf : 1 / 2 ≤ y * v := by linarith [(abs_le.1 hyv).1]
  refine le_of_mul_le_mul_right ?_ hy
  calc |w - v| * y = |(w * y - 1) - (y * v - 1)| := by
        rw [← abs_of_pos hy, ← abs_mul, abs_of_pos hy]
        exact congrArg _ (by ring)
    _ ≤ |w * y - 1| + |y * v - 1| := abs_sub _ _
    _ ≤ 2 ^ (-51 : ℤ) * (1 / 2) := (add_le_add hwy hyv).trans_eq (by norm_num)
    _ ≤ 2 ^ (-51 : ℤ) * (y * v) := mul_le_mul_of_nonneg_left hhalf (by positivity)
    _ = 2 ^ (-51 : ℤ) * v * y := by ring

/-- The reciprocal of a number between the two bounds is between them. -/
theorem inv_bounds (hlow : 2 ^ (-1022 : ℤ) ≤ v) (hhigh : v ≤ 2 ^ (1022 : ℤ)) :
    2 ^ (-1022 : ℤ) ≤ v⁻¹ ∧ v⁻¹ ≤ 2 ^ (1022 : ℤ) := by
  have hpos : 0 < v := lt_of_lt_of_le (by positivity) hlow
  constructor
  · rw [zpow_neg]
    exact inv_anti₀ hpos hhigh
  · rw [← inv_inv ((2 : ℚ) ^ (1022 : ℤ)), ← zpow_neg]
    exact inv_anti₀ (by positivity) hlow

namespace Magnitude

variable {q : ℚ} {l m n : Magnitude}

/-! ## Rounded reciprocals -/

theorem ne_zero_of_two_zpow_le {j : ℤ} (h : 2 ^ j ≤ m.value) : m ≠ zero := by
  rintro rfl
  rw [value_zero] at h
  exact absurd h (not_le.2 (by positivity))

/-- Rounding does not take a number across a power of two. -/
theorem IsNearest.bounds_of_two_zpow {i j : ℤ} (h : m.IsNearest q) (hi : -1022 ≤ i)
    (hij : i ≤ j) (hj : j ≤ 1023) (hlow : 2 ^ i ≤ q) (hhigh : q ≤ 2 ^ j) :
    2 ^ i ≤ m.value ∧ m.value ≤ 2 ^ j := by
  obtain ⟨a, ha⟩ := exists_value_eq_two_zpow hi (hij.trans hj)
  obtain ⟨b, hb⟩ := exists_value_eq_two_zpow (hi.trans hij) hj
  rw [← ha] at hlow ⊢
  rw [← hb] at hhigh ⊢
  constructor
  · exact value_le_value_iff.2 (a.isNearest_value_rat.rank_le_rank h hlow)
  · exact value_le_value_iff.2 (h.rank_le_rank b.isNearest_value_rat hhigh)

/-- **The rounded reciprocal of a number between the two bounds is between them.** -/
theorem IsNearest.bounds_of_inv (h : n.IsNearest m.value⁻¹) (hlow : 2 ^ (-1022 : ℤ) ≤ m.value)
    (hhigh : m.value ≤ 2 ^ (1022 : ℤ)) :
    2 ^ (-1022 : ℤ) ≤ n.value ∧ n.value ≤ 2 ^ (1022 : ℤ) := by
  obtain ⟨hinvlow, hinvhigh⟩ := inv_bounds hlow hhigh
  exact h.bounds_of_two_zpow le_rfl (by norm_num) (by norm_num) hinvlow hinvhigh

/-- **The rounded reciprocal of a rounded reciprocal** is off by a part in `2 ^ 51` at most. -/
theorem IsNearest.abs_sub_le_of_inv_inv (h : n.IsNearest m.value⁻¹) (h' : l.IsNearest n.value⁻¹)
    (hlow : 2 ^ (-1022 : ℤ) ≤ m.value) (hhigh : m.value ≤ 2 ^ (1022 : ℤ)) :
    |l.value - m.value| ≤ 2 ^ (-51 : ℤ) * m.value := by
  obtain ⟨hnlow, hnhigh⟩ := h.bounds_of_inv hlow hhigh
  have hpos : (0 : ℚ) < 2 ^ (-1022 : ℤ) := by positivity
  exact abs_sub_le_of_abs_sub_inv_le (hpos.trans_le hlow) (hpos.trans_le hnlow)
    (h.abs_sub_le_of_two_zpow_le (inv_bounds hlow hhigh).1)
    (h'.abs_sub_le_of_two_zpow_le (inv_bounds hnlow hnhigh).1)

end Magnitude

namespace Binary64

variable {s : Bool} {m : Magnitude} {x : Binary64}

/-- A rounded reciprocal of a number between the two bounds is finite. -/
theorem IsRounded.exists_eq_finite_of_inv (h : IsRounded (1 / signedValue s m) s x)
    (hlow : 2 ^ (-1022 : ℤ) ≤ m.value) (hhigh : m.value ≤ 2 ^ (1022 : ℤ)) :
    ∃ n, x = finite s n ∧ n.IsNearest m.value⁻¹ := by
  rw [one_div] at h
  have habs : |(signedValue s m)⁻¹| = m.value⁻¹ := by rw [abs_inv, abs_signedValue_eq]
  have hlt : m.value⁻¹ < Magnitude.overflowBound := by
    calc m.value⁻¹ ≤ 2 ^ (1022 : ℤ) := (inv_bounds hlow hhigh).2
      _ < Magnitude.overflowBound :=
          Magnitude.two_zpow_lt_overflowBound (by norm_num) (by norm_num)
  obtain ⟨n, hn, hnear⟩ :=
    h.exists_eq_finite (isSignOf_signedValue s m).inv (by rwa [habs, Rat.cast_id])
  rw [habs] at hnear
  exact ⟨n, hn, hnear⟩

end Binary64

end Keypad
