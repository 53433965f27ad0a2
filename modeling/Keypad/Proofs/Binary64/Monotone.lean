import Keypad.Proofs.Binary64.Rounding

/-!
# Proofs/Binary64/Monotone — rounding keeps the order of numbers

The numbers that round to one magnitude have no gap (`IsNearest.of_le_of_le`), and a greater number
is not rounded to a lesser magnitude (`IsNearest.rank_le_rank`).  The sign of a number that rounds
to a finite one other than zero is the sign of the result (`isSignOf_of_rounds`).
-/

namespace Keypad

variable {K : Type*} [Field K] [LinearOrder K] [IsStrictOrderedRing K]

namespace Magnitude

variable {q q' t : K} {m m' : Magnitude}

theorem rank_lt_or_gt_of_ne (h : m ≠ m') : m.rank < m'.rank ∨ m'.rank < m.rank :=
  lt_or_gt_of_ne fun hrank => h (rank_injective hrank)

theorem cast_value_lt_value (h : m.rank < m'.rank) : (m.value : K) < m'.value :=
  Rat.cast_lt.2 (value_lt_value h)

/-- **What lies between two numbers that round to a magnitude rounds to it.**  Its midpoints with
lesser magnitudes are below the lower number and those with greater ones above the upper, so that a
tie is one at an end. -/
theorem IsNearest.of_le_of_le (h : IsNearest q m) (h' : IsNearest q' m) (hq : q ≤ t)
    (hq' : t ≤ q') : IsNearest t m := by
  have hbelow : ∀ {n : Magnitude}, n.rank < m.rank → (n.value : K) + m.value ≤ 2 * q := fun hn =>
    (abs_sub_le_abs_sub_iff_of_gt (cast_value_lt_value hn) q).1 (h.abs_sub_le _)
  have habove : ∀ {n : Magnitude}, m.rank < n.rank → 2 * q' ≤ (m.value : K) + n.value := fun hn =>
    (abs_sub_le_abs_sub_iff_of_lt (cast_value_lt_value hn) q').1 (h'.abs_sub_le _)
  refine ⟨fun n => ?_, fun n hne ht => ?_, hq'.trans_lt h'.lt_overflow⟩
  · by_cases hne : n = m
    · rw [hne]
    rcases rank_lt_or_gt_of_ne hne with hn | hn
    · rw [abs_sub_le_abs_sub_iff_of_gt (cast_value_lt_value hn)]
      linarith [hbelow hn]
    · rw [abs_sub_le_abs_sub_iff_of_lt (cast_value_lt_value hn)]
      linarith [habove hn]
  · rcases rank_lt_or_gt_of_ne hne with hn | hn
    · rw [abs_sub_eq_abs_sub_iff_of_lt (cast_value_lt_value hn)] at ht
      refine h.even_of_tie n hne ?_
      rw [abs_sub_eq_abs_sub_iff_of_lt (cast_value_lt_value hn)]
      linarith [hbelow hn]
    · rw [eq_comm, abs_sub_eq_abs_sub_iff_of_lt (cast_value_lt_value hn)] at ht
      refine h'.even_of_tie n hne ?_
      rw [eq_comm, abs_sub_eq_abs_sub_iff_of_lt (cast_value_lt_value hn)]
      linarith [habove hn]

/-- **A greater number is not rounded to a lesser magnitude.** -/
theorem IsNearest.rank_le_rank (h : IsNearest q m) (h' : IsNearest q' m') (hq : q ≤ q') :
    m.rank ≤ m'.rank := by
  by_contra hlt
  have hvalue := cast_value_lt_value (K := K) (not_le.1 hlt)
  have hmid := (abs_sub_le_abs_sub_iff_of_gt hvalue q).1 (h.abs_sub_le m')
  have hmid' := (abs_sub_le_abs_sub_iff_of_lt hvalue q').1 (h'.abs_sub_le m)
  have heq : q = q' := by linarith
  subst heq
  exact hlt (congrArg rank (h.eq h')).le

theorem value_le_value_iff : m.value ≤ m'.value ↔ m.rank ≤ m'.rank := by
  refine ⟨fun h => not_lt.1 fun hlt => (value_lt_value hlt).not_ge h, fun h => ?_⟩
  rcases h.lt_or_eq with hlt | heq
  · exact (value_lt_value hlt).le
  · rw [rank_injective heq]

theorem value_lt_value_iff : m.value < m'.value ↔ m.rank < m'.rank := by
  rw [← not_le, value_le_value_iff, not_le]

theorem value_pos (h : m ≠ zero) : 0 < m.value :=
  lt_of_le_of_ne m.value_nonneg fun hzero => h (value_injective (by rw [← hzero, value_zero]))

end Magnitude

namespace Binary64

/-- **A number has the sign of the number it rounds to**, if that is finite and not zero. -/
theorem isSignOf_of_rounds {negative : Bool} {m : Magnitude} {q : K} (hm : m ≠ Magnitude.zero)
    (h : Rounds q (finite negative m)) : IsSignOf negative q := by
  have hpos : (0 : K) < m.value := Rat.cast_pos.2 (Magnitude.value_pos hm)
  have hneg : (signedValue true m : K) < signedValue false m := by
    simp only [signedValue, if_true, Bool.false_eq_true, if_false, Rat.cast_neg]
    linarith
  have hsum : (signedValue true m : K) + signedValue false m = 0 := by
    simp only [signedValue, if_true, Bool.false_eq_true, if_false, Rat.cast_neg, neg_add_cancel]
  cases negative with
  | true =>
    have hle := (abs_sub_le_abs_sub_iff_of_lt hneg q).1 (h.1 false m)
    rw [hsum] at hle
    show q ≤ 0
    linarith
  | false =>
    have hle := (abs_sub_le_abs_sub_iff_of_gt hneg q).1 (h.1 true m)
    rw [hsum] at hle
    show 0 ≤ q
    linarith

end Binary64

end Keypad
