import Keypad.Binary64.Arithmetic
import Keypad.Proofs.Binary64.Monotone

/-!
# Proofs/Binary64/Operations — an operation gives its exact result, rounded once

`Binary64.IsRounded q negative x` says that `x` is the number `q` rounded, and which zero it is if
it is one.  There is one such number at most (`IsRounded.eq`).  On finite numbers the four
operations form an exact ratio of units and give the number that is this ratio rounded
(`isRounded_add`, `isRounded_sub`, `isRounded_mul`, `isRounded_div`): results too small for the
usual precision are not lost but rounded to the unit, and results too great are infinite.
-/

namespace Keypad

variable {K : Type*} [Field K] [LinearOrder K]

/-! ## Signs -/

namespace Binary64

variable {q : K} {s t : Bool}

/-- Only zero has two signs. -/
theorem IsSignOf.eq (hs : IsSignOf s q) (ht : IsSignOf t q) (hq : q ≠ 0) : s = t := by
  cases s <;> cases t
  · rfl
  · exact absurd (le_antisymm ht hs) hq
  · exact absurd (le_antisymm hs ht) hq
  · rfl

theorem IsSignOf.iff_neg (h : IsSignOf s q) (hq : q ≠ 0) : s = true ↔ q < 0 := by
  cases s with
  | false => exact iff_of_false Bool.false_ne_true (not_lt.2 h)
  | true => exact iff_of_true rfl (lt_of_le_of_ne h hq)

theorem isSignOf_decide (q : K) : IsSignOf (decide (q < 0)) q := by
  by_cases h : q < 0
  · rw [decide_eq_true h]
    exact h.le
  · rw [decide_eq_false h]
    exact not_lt.1 h

end Binary64

variable [IsStrictOrderedRing K]

namespace Magnitude

theorem value_mul_unitsPerOne (m : Magnitude) : m.value * unitsPerOne = m.units := by
  rw [value_eq_units_div]
  exact div_mul_cancel₀ _ unitsPerOne_cast_pos.ne'

/-! ## Nearest to zero -/

theorem isNearest_zero : IsNearest (0 : K) zero := by
  simpa only [value_zero, Rat.cast_zero] using isNearest_value (K := K) zero

theorem overflowBound_pos : (0 : K) < (overflowBound : K) := (isNearest_zero (K := K)).lt_overflow

/-- A whole number of units other than zero is not rounded to zero, but to a unit at least. -/
theorem nearest?_one_ne_zero {n : ℕ} (hn : n ≠ 0) : nearest? n 1 ≠ some zero := by
  intro h
  let unit : Magnitude := ⟨1, by decide⟩
  have hunit : unit.value ≤ (n : ℚ) / (1 : ℕ) / unitsPerOne := by
    have hone : unit.units = 1 := by decide
    rw [value_eq_units_div, hone, Nat.cast_one, div_one]
    exact div_le_div_of_nonneg_right (by exact_mod_cast Nat.one_le_iff_ne_zero.2 hn)
      unitsPerOne_cast_pos.le
  have hnear : zero.IsNearest ((n : ℚ) / (1 : ℕ) / unitsPerOne) :=
    (nearest?_eq_some_iff one_pos).1 h
  exact absurd ((isNearest_value unit).rank_le_rank hnear hunit) (by decide)

end Magnitude

namespace Binary64

open Magnitude (overflowBound)

variable {q r : K} {negative s t : Bool} {m : Magnitude} {x y : Binary64}

/-! ## Signs of products -/

theorem isSignOf_signedValue (s : Bool) (m : Magnitude) : IsSignOf s (signedValue s m) := by
  cases s with
  | false => exact m.value_nonneg
  | true => exact neg_nonpos.2 m.value_nonneg

theorem IsSignOf.mul (hq : IsSignOf s q) (hr : IsSignOf t r) : IsSignOf (s ^^ t) (q * r) := by
  cases s <;> cases t
  · exact mul_nonneg hq hr
  · exact mul_nonpos_of_nonneg_of_nonpos hq hr
  · exact mul_nonpos_of_nonpos_of_nonneg hq hr
  · exact mul_nonneg_of_nonpos_of_nonpos hq hr

theorem IsSignOf.inv (h : IsSignOf s q) : IsSignOf s q⁻¹ := by
  cases s with
  | false => exact inv_nonneg.2 h
  | true => exact inv_nonpos.2 h

theorem signedValue_zero (s : Bool) : signedValue s Magnitude.zero = 0 := by
  cases s <;> simp [signedValue]

/-! ## Rounded numbers -/

/-- The number `x` is `q` rounded to nearest, ties to even, and the zero of the sign `negative` if
it is a zero. -/
structure IsRounded (q : K) (negative : Bool) (x : Binary64) : Prop where
  rounds : Rounds q x
  sign_of_zero : ∀ s, x = zero s → s = negative

/-- **Signs aside**, a finite number that `q` is rounded to has the magnitude nearest to `|q|`.  For a
zero there is a choice of signs, and one of them is that of `q`. -/
theorem isNearest_abs_of_rounds (h : Rounds q (finite s m)) : m.IsNearest |q| := by
  by_cases hm : m = Magnitude.zero
  · subst hm
    refine (rounds_finite_iff (isSignOf_decide q)).1 ?_
    rw [Rounds, signedValue_zero] at h ⊢
    exact h
  · exact (rounds_finite_iff (isSignOf_of_rounds hm h)).1 h

theorem ne_zero_of_rounds (hm : m ≠ Magnitude.zero) (h : Rounds q (finite s m)) : q ≠ 0 := by
  rintro rfl
  have hnear := isNearest_abs_of_rounds h
  rw [abs_zero] at hnear
  exact hm (hnear.eq Magnitude.isNearest_zero)

/-- **There is one rounded number at most.** -/
theorem IsRounded.eq (hx : IsRounded q negative x) (hy : IsRounded q negative y) : x = y := by
  obtain ⟨hx, hx₀⟩ := hx
  obtain ⟨hy, hy₀⟩ := hy
  match x, y with
  | nan, _ => exact hx.elim
  | _, nan => exact hy.elim
  | infinite s, infinite t => exact congrArg infinite (Bool.eq_iff_iff.2 (hx.2.trans hy.2.symm))
  | infinite _, finite _ _ => exact absurd hx.1 hy.2.2.not_ge
  | finite _ _, infinite _ => exact absurd hy.1 hx.2.2.not_ge
  | finite s m, finite t n =>
    obtain rfl := (isNearest_abs_of_rounds hx).eq (isNearest_abs_of_rounds hy)
    by_cases hm : m = Magnitude.zero
    · subst hm
      rw [hx₀ s rfl, hy₀ t rfl]
    · rw [(isSignOf_of_rounds hm hx).eq (isSignOf_of_rounds hm hy) (ne_zero_of_rounds hm hx)]

/-- Below the overflow bound a rounded number is finite, and has the given sign if `q` does. -/
theorem IsRounded.exists_eq_finite (h : IsRounded q negative x) (hs : IsSignOf negative q)
    (hq : |q| < (overflowBound : K)) : ∃ m, x = finite negative m ∧ m.IsNearest |q| := by
  match x, h with
  | nan, h => exact h.rounds.elim
  | infinite _, h => exact absurd h.rounds.1 hq.not_ge
  | finite s m, ⟨h, h₀⟩ =>
    refine ⟨m, ?_, isNearest_abs_of_rounds h⟩
    by_cases hm : m = Magnitude.zero
    · subst hm
      rw [h₀ s rfl]
    · rw [(isSignOf_of_rounds hm h).eq hs (ne_zero_of_rounds hm h)]

theorem isRounded_finite (hs : IsSignOf s q) (h : m.IsNearest |q|) :
    IsRounded q s (finite s m) :=
  ⟨(rounds_finite_iff hs).2 h, fun _ hzero => (Binary64.finite.inj hzero).1.symm⟩

theorem isRounded_zero (s : Bool) : IsRounded (0 : K) s (zero s) := by
  refine isRounded_finite ?_ ?_
  · cases s <;> exact le_rfl
  · rw [abs_zero]
    exact Magnitude.isNearest_zero

/-! ## Ratios of units -/

/-- A number is finite if a magnitude is found, and infinite otherwise.  This comes from an equation
of functions: on arguments the kernel would set out to compute the magnitude. -/
theorem nearest_eq_elim (negative : Bool) (num den : ℕ) : nearest negative num den
    = (Magnitude.nearest? num den).elim (infinite negative) (finite negative) := by
  have hnearest : nearest = fun negative num den =>
      (Magnitude.nearest? num den).elim (infinite negative) (finite negative) := by
    delta nearest
    funext negative num den
    cases Magnitude.nearest? num den with
    | none => rfl
    | some m => rfl
  rw [hnearest]

/-- A whole number of units other than zero is not rounded to zero. -/
theorem nearest_one_ne_zero {n : ℕ} (hn : n ≠ 0) (s t : Bool) : nearest s n 1 ≠ zero t := by
  intro h
  rw [nearest_eq_elim] at h
  cases hm : Magnitude.nearest? n 1 with
  | none =>
    rw [hm] at h
    exact Binary64.noConfusion h
  | some m =>
    rw [hm] at h
    obtain rfl : m = Magnitude.zero := (Binary64.finite.inj h).2
    exact Magnitude.nearest?_one_ne_zero hn hm

/-- **A ratio of units is rounded** to the magnitude of its nearest rank, and beyond the greatest
magnitude to an infinity. -/
theorem isRounded_nearest {num den : ℕ} (hs : IsSignOf s q)
    (h : Magnitude.IsNearestRank (|q| * unitsPerOne) (Magnitude.nearestRank num den)) :
    IsRounded q s (nearest s num den) := by
  have hpos := Magnitude.unitsPerOne_cast_pos (K := K)
  have hend : Magnitude.rankEnd = 0x7FF0000000000000 := by norm_num [Magnitude.rankEnd]
  rw [nearest_eq_elim]
  by_cases hlt : Magnitude.nearestRank num den < 0x7FF0000000000000
  · have hfound : Magnitude.nearest? num den = some ⟨_, hlt⟩ := dif_pos hlt
    have hnear := Magnitude.isNearest_of_isNearestRank (m := ⟨_, hlt⟩) h
    rw [mul_div_cancel_right₀ _ hpos.ne'] at hnear
    rw [hfound]
    exact isRounded_finite hs hnear
  · have hnone : Magnitude.nearest? num den = none := dif_neg hlt
    have hbound : (overflowBound : K) ≤ |q| := by
      rw [← hend, h.lt_rankEnd_iff, Magnitude.rankUnits_midpoint, not_lt] at hlt
      exact le_of_mul_le_mul_right (le_of_mul_le_mul_left hlt two_pos) hpos
    have hq : q ≠ 0 := abs_pos.1 (Magnitude.overflowBound_pos.trans_le hbound)
    rw [hnone]
    exact ⟨⟨hbound, hs.iff_neg hq⟩, fun _ hzero => Binary64.noConfusion hzero⟩

/-- A number that is itself a ratio of units is rounded. -/
theorem isRounded_nearest_of_abs {num den : ℕ} (hden : 0 < den) (hs : IsSignOf s q)
    (hq : |q| * unitsPerOne = num / den) : IsRounded q s (nearest s num den) := by
  refine isRounded_nearest hs ?_
  rw [hq]
  exact Magnitude.isNearestRank_nearestRank hden

/-! ## Values in units -/

theorem signedValue_mul_unitsPerOne (s : Bool) (m : Magnitude) :
    signedValue s m * unitsPerOne = signedUnits s m := by
  cases s with
  | false => exact_mod_cast Magnitude.value_mul_unitsPerOne m
  | true =>
    simp only [signedValue, signedUnits, if_true, Int.cast_neg, neg_mul, Int.cast_natCast,
      Magnitude.value_mul_unitsPerOne]

theorem abs_signedValue_eq (s : Bool) (m : Magnitude) : |signedValue s m| = m.value := by
  simpa only [Rat.cast_id] using abs_signedValue (K := ℚ) s m

/-- A natural number that is a magnitude is not rounded. -/
theorem ofNat_eq_finite {n : ℕ} {m : Magnitude} (h : m.value = n) :
    ofNat n = finite false m := by
  have hunits : m.units = n * unitsPerOne := by
    have hvalue := Magnitude.value_mul_unitsPerOne m
    rw [h] at hvalue
    exact_mod_cast hvalue.symm
  rw [ofNat, nearest_eq_elim, ← hunits, Magnitude.nearest?_units]
  rfl

/-! ## The four operations -/

variable {b : Magnitude}

/-- **Sums are exact, and then rounded.**  A sum that is zero is positive, unless both numbers are
negative zeros; no other sum is rounded to zero. -/
theorem isRounded_add (s t : Bool) (a b : Magnitude) :
    IsRounded (signedValue s a + signedValue t b) (s && t) (finite s a + finite t b) := by
  have hpos : (0 : ℚ) < unitsPerOne := Magnitude.unitsPerOne_cast_pos
  set q := signedValue s a + signedValue t b with hq
  set total := signedUnits s a + signedUnits t b with htotal
  have hsum : q * unitsPerOne = total := by
    rw [hq, add_mul, signedValue_mul_unitsPerOne, signedValue_mul_unitsPerOne, htotal, Int.cast_add]
  have hadd : finite s a + finite t b
      = if total = 0 then zero (s && t) else nearest (total < 0) total.natAbs 1 := rfl
  rw [hadd]
  split
  · rename_i hzero
    rw [hzero, Int.cast_zero] at hsum
    rw [(mul_eq_zero.1 hsum).resolve_right hpos.ne']
    exact isRounded_zero _
  · rename_i hne
    have hsign : IsSignOf (decide (total < 0)) q := by
      have hle : 0 ≤ total ↔ 0 ≤ q := by
        rw [← Int.cast_nonneg_iff (R := ℚ), ← hsum, mul_nonneg_iff_of_pos_right hpos]
      rw [decide_eq_decide.2 (lt_iff_lt_of_le_iff_le hle)]
      exact isSignOf_decide q
    have habs : |q| * unitsPerOne = total.natAbs / (1 : ℕ) := by
      rw [Nat.cast_one, div_one, Nat.cast_natAbs, Int.cast_abs, ← hsum, abs_mul, abs_of_pos hpos]
    refine ⟨(isRounded_nearest_of_abs one_pos hsign habs).rounds, fun u hu => ?_⟩
    exact absurd hu (nearest_one_ne_zero (Int.natAbs_ne_zero.2 hne) _ u)

/-- The difference is the sum with the second number negated. -/
theorem isRounded_sub (s t : Bool) (a b : Magnitude) :
    IsRounded (signedValue s a - signedValue t b) (s && !t) (finite s a - finite t b) := by
  have hneg : signedValue s a - signedValue t b = signedValue s a + signedValue (!t) b := by
    cases t <;> simp [signedValue, sub_eq_add_neg]
  rw [hneg]
  exact isRounded_add s (!t) a b

/-- **Products are exact, and then rounded.** -/
theorem isRounded_mul (s t : Bool) (a b : Magnitude) :
    IsRounded (signedValue s a * signedValue t b) (s ^^ t) (finite s a * finite t b) := by
  refine isRounded_nearest_of_abs unitsPerOne_pos
    ((isSignOf_signedValue s a).mul (isSignOf_signedValue t b)) ?_
  have hpos : (0 : ℚ) < unitsPerOne := Magnitude.unitsPerOne_cast_pos
  rw [abs_mul, abs_signedValue_eq, abs_signedValue_eq, eq_div_iff hpos.ne', Nat.cast_mul,
    ← Magnitude.value_mul_unitsPerOne, ← Magnitude.value_mul_unitsPerOne]
  ring

/-- **Quotients by a number other than zero are exact, and then rounded.** -/
theorem isRounded_div (s t : Bool) (a : Magnitude) (hb : b ≠ Magnitude.zero) :
    IsRounded (signedValue s a / signedValue t b) (s ^^ t) (finite s a / finite t b) := by
  have hdiv : finite s a / finite t b = nearest (s ^^ t) (a.units * unitsPerOne) b.units :=
    if_neg hb
  have hunits : 0 < b.units := Nat.pos_of_ne_zero fun h => hb (Magnitude.units_eq_zero_iff.1 h)
  have hvalue : b.value ≠ 0 := (Magnitude.value_pos hb).ne'
  rw [hdiv]
  refine isRounded_nearest_of_abs hunits ?_ ?_
  · rw [div_eq_mul_inv]
    exact (isSignOf_signedValue s a).mul (isSignOf_signedValue t b).inv
  · have hpos : (0 : ℚ) < unitsPerOne := Magnitude.unitsPerOne_cast_pos
    rw [abs_div, abs_signedValue_eq, abs_signedValue_eq, Nat.cast_mul,
      ← Magnitude.value_mul_unitsPerOne, ← Magnitude.value_mul_unitsPerOne]
    field_simp

end Binary64

end Keypad
