import Keypad.Proofs.Binary64.Operations

/-!
# Proofs/Binary64/SquareRoot — the square root is the exact root, rounded once

The root of a number of units is irrational as a rule, and is rounded from a stand-in: the half
between the two whole numbers that it lies between (`doubleRoot`).  That is safe since no midpoint
of neighbouring ranks lies strictly between two whole numbers, provided that ranks are two units
apart or more (`even_rankUnits_add_succ`); and no root is so small (`isRounded_sqrt`).
-/

namespace Keypad

namespace Magnitude

/-! ## Ranks told by their neighbours -/

/-- **A rank is nearest** to a number strictly between the midpoints with its two neighbours. -/
theorem isNearestRank_of_between {K : Type*} [Field K] [LinearOrder K] [IsStrictOrderedRing K]
    {q : K} {r : ℕ} (hlow : ∀ s, s + 1 = r → (rankUnits s : K) + rankUnits r < 2 * q)
    (hhigh : 2 * q < (rankUnits r : K) + rankUnits (r + 1)) : IsNearestRank q r := by
  have hlt : ∀ {i j : ℕ}, i < j → (rankUnits i : K) < rankUnits j := fun hij =>
    Nat.cast_lt.2 (strictMono_rankUnits hij)
  have hle : ∀ {i j : ℕ}, i ≤ j → (rankUnits i : K) ≤ rankUnits j := fun hij =>
    Nat.cast_le.2 (strictMono_rankUnits.monotone hij)
  intro s hs
  rcases lt_or_gt_of_ne hs with hsr | hrs
  · obtain ⟨p, rfl⟩ := Nat.exists_eq_add_of_lt hsr
    have hmid := hlow (s + p) rfl
    have hsp := hle (Nat.le_add_right s p)
    refine ⟨(abs_sub_le_abs_sub_iff_of_gt (hlt hsr) q).2 (by linarith), fun ht => ?_⟩
    rw [abs_sub_eq_abs_sub_iff_of_lt (hlt hsr)] at ht
    linarith
  · have hrs' := hle (Nat.succ_le_of_lt hrs)
    refine ⟨(abs_sub_le_abs_sub_iff_of_lt (hlt hrs) q).2 (by linarith), fun ht => ?_⟩
    rw [eq_comm, abs_sub_eq_abs_sub_iff_of_lt (hlt hrs)] at ht
    linarith

/-- Beyond the first `2 ^ 53` ranks the midpoint of neighbours is a whole number of units. -/
theorem even_rankUnits_add_succ {r : ℕ} (hr : 2 ^ 53 ≤ r) :
    Even (rankUnits r + rankUnits (r + 1)) := by
  obtain ⟨e, k, rfl, hk, he⟩ := exists_rank_eq r
  have hpos : e ≠ 0 := by omega
  rw [Nat.add_assoc, rankUnits_add hk.le he, rankUnits_add hk (by omega), ← Nat.add_mul]
  exact (Nat.even_pow.2 ⟨even_two, hpos⟩).mul_left _

theorem lt_nearestRank {num den : ℕ} (hden : 0 < den) (h : 2 ^ 54 * den ≤ num) :
    2 ^ 53 < nearestRank num den := by
  obtain ⟨hlt, hge⟩ := @stepExponent_bounds num den hden
  rw [nearestRank_eq]
  set e := stepExponent num den
  have he : 1 < e := by
    by_contra hle
    have hpow : 2 ^ e ≤ 2 ^ 1 := Nat.pow_le_pow_right two_pos (not_lt.1 hle)
    have hmul : den * 2 ^ e ≤ den * 2 ^ 1 := Nat.mul_le_mul_left den hpow
    omega
  have hk := (roundQuotient_bounds (Nat.mul_pos hden (Nat.two_pow_pos e)) hlt hge).2
  omega

/-! ## The stand-in for a root -/

/-- **A number strictly between two whole numbers** is rounded like the half between them: a
midpoint of neighbouring ranks is none of the three. -/
theorem IsNearestRank.of_half {a r : ℕ} {q : ℝ} (h : IsNearestRank ((2 * a + 1 : ℕ) / 2 : ℝ) r)
    (hr : 2 ^ 53 < r) (hlow : a < q) (hhigh : q < a + 1) : IsNearestRank q r := by
  have hlt : ∀ {i j : ℕ}, i < j → (rankUnits i : ℝ) < rankUnits j := fun hij =>
    Nat.cast_lt.2 (strictMono_rankUnits hij)
  have htwice : 2 * (((2 * a + 1 : ℕ) : ℝ) / 2) = (2 * a + 1 : ℕ) := mul_div_cancel₀ _ two_ne_zero
  refine isNearestRank_of_between (fun s hs => ?_) ?_
  · have hmid := (h s (by omega)).1
    rw [abs_sub_le_abs_sub_iff_of_gt (hlt (by omega)), htwice] at hmid
    have heven := even_rankUnits_add_succ (r := s) (by omega)
    rw [hs, Nat.even_iff] at heven
    have hle : rankUnits s + rankUnits r ≤ 2 * a + 1 := by exact_mod_cast hmid
    have hle' : (rankUnits s : ℝ) + rankUnits r ≤ 2 * a := by
      exact_mod_cast (by omega : rankUnits s + rankUnits r ≤ 2 * a)
    linarith
  · have hmid := (h (r + 1) (by omega)).1
    rw [abs_sub_le_abs_sub_iff_of_lt (hlt (by omega)), htwice] at hmid
    have heven := even_rankUnits_add_succ hr.le
    rw [Nat.even_iff] at heven
    have hle : 2 * a + 1 ≤ rankUnits r + rankUnits (r + 1) := by exact_mod_cast hmid
    have hle' : (2 : ℝ) * (a + 1) ≤ rankUnits r + rankUnits (r + 1) := by
      exact_mod_cast (by omega : 2 * (a + 1) ≤ rankUnits r + rankUnits (r + 1))
    linarith

theorem natCast_sqrt_lt_sqrt {n : ℕ} (h : n.sqrt * n.sqrt ≠ n) : (n.sqrt : ℝ) < √n := by
  refine lt_of_le_of_ne Real.nat_sqrt_le_real_sqrt fun heq => h ?_
  have hsquare : (n.sqrt : ℝ) * n.sqrt = n := by
    rw [heq, Real.mul_self_sqrt (Nat.cast_nonneg n)]
  exact_mod_cast hsquare

/-- **The stand-in is rounded like the root**, if that is great enough; a whole root is its own
stand-in. -/
theorem isNearestRank_sqrt {n : ℕ} (h : 2 ^ 55 * 2 ^ 55 ≤ n) :
    IsNearestRank √(n : ℝ) (nearestRank (Binary64.doubleRoot n) 2) := by
  have hrank : IsNearestRank ((Binary64.doubleRoot n : ℝ) / (2 : ℕ))
      (nearestRank (Binary64.doubleRoot n) 2) := isNearestRank_nearestRank two_pos
  rw [Nat.cast_two] at hrank
  by_cases hsq : n.sqrt * n.sqrt = n
  · have hroot : √(n : ℝ) = n.sqrt := by
      rw [Real.sqrt_eq_iff_mul_self_eq (Nat.cast_nonneg n) (Nat.cast_nonneg _)]
      exact_mod_cast hsq.symm
    have hdouble : (Binary64.doubleRoot n : ℝ) / 2 = n.sqrt := by
      rw [Binary64.doubleRoot, if_pos hsq, Nat.add_zero, Nat.cast_mul, Nat.cast_two,
        mul_div_cancel_left₀ _ two_ne_zero]
    rw [hroot, ← hdouble]
    exact hrank
  · have hdouble : Binary64.doubleRoot n = 2 * n.sqrt + 1 := by
      rw [Binary64.doubleRoot, if_neg hsq]
    have hlarge : 2 ^ 55 ≤ n.sqrt := Nat.le_sqrt.2 h
    rw [hdouble] at hrank ⊢
    exact hrank.of_half (lt_nearestRank two_pos (by omega)) (natCast_sqrt_lt_sqrt hsq)
      Real.real_sqrt_lt_nat_sqrt_succ

end Magnitude

namespace Binary64

variable {s : Bool} {m : Magnitude}

/-- A root of a magnitude, in units, is the root of a whole number. -/
theorem sqrt_value_mul_unitsPerOne (m : Magnitude) :
    √(m.value : ℝ) * unitsPerOne = √((m.units * unitsPerOne : ℕ) : ℝ) := by
  have hpos : (0 : ℝ) ≤ unitsPerOne := Magnitude.unitsPerOne_cast_pos.le
  have hunits : (m.units : ℝ) = m.value * unitsPerOne := by
    exact_mod_cast (Magnitude.value_mul_unitsPerOne m).symm
  have hvalue : (0 : ℝ) ≤ m.value := Rat.cast_nonneg.2 m.value_nonneg
  rw [Nat.cast_mul, hunits, mul_assoc, Real.sqrt_mul hvalue, Real.sqrt_mul_self hpos]

/-- The numbers that roots are taken of are great, counted in units. -/
theorem le_units_mul_unitsPerOne (hm : m ≠ Magnitude.zero) :
    2 ^ 55 * 2 ^ 55 ≤ m.units * unitsPerOne := by
  have hunits : 0 < m.units := Nat.pos_of_ne_zero fun h => hm (Magnitude.units_eq_zero_iff.1 h)
  have hone : 2 ^ (55 + 55) ≤ unitsPerOne := by
    rw [Magnitude.unitsPerOne_eq]
    exact Nat.pow_le_pow_right two_pos (by rw [unitPlaces_eq]; omega)
  rw [← pow_add]
  exact hone.trans (Nat.le_mul_of_pos_left _ hunits)

/-- **The square root of a number that is not below zero** is the exact root, rounded. -/
theorem isRounded_sqrt (h : 0 ≤ signedValue s m) :
    IsRounded √(signedValue s m : ℝ) s (sqrt (finite s m)) := by
  by_cases hm : m = Magnitude.zero
  · have hsqrt : sqrt (finite s m) = finite s m := if_pos hm
    rw [hsqrt, hm, signedValue_zero, Rat.cast_zero, Real.sqrt_zero]
    exact isRounded_zero s
  · obtain rfl : s = false := by
      by_contra hs
      rw [Bool.not_eq_false] at hs
      rw [hs] at h
      exact (neg_neg_of_pos (Magnitude.value_pos hm)).not_ge h
    have hsqrt : sqrt (finite false m) = nearest false (doubleRoot (m.units * unitsPerOne)) 2 := by
      rw [sqrt, if_neg hm, if_neg Bool.false_ne_true]
    rw [hsqrt]
    refine isRounded_nearest (Real.sqrt_nonneg _) ?_
    rw [abs_of_nonneg (Real.sqrt_nonneg _)]
    change Magnitude.IsNearestRank (√(m.value : ℝ) * unitsPerOne) _
    rw [sqrt_value_mul_unitsPerOne]
    exact Magnitude.isNearestRank_sqrt (le_units_mul_unitsPerOne hm)

/-- No number below zero has a square root. -/
theorem sqrt_of_neg (h : signedValue s m < 0) : sqrt (finite s m) = nan := by
  cases s with
  | false => exact absurd m.value_nonneg h.not_ge
  | true =>
    have hm : m ≠ Magnitude.zero := by
      rintro rfl
      rw [signedValue_zero] at h
      exact lt_irrefl 0 h
    exact if_neg hm

end Binary64

end Keypad
