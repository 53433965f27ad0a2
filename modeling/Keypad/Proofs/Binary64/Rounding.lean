import Keypad.Binary64.Basic
import Keypad.Proofs.Binary64.Nearest

/-!
# Proofs/Binary64/Rounding — what rounding a number to binary64 means

`Binary64.Rounds q x` says that `x` is `q` rounded to nearest, ties to even: no finite number is
nearer, and from the midpoint of the greatest number and `2 ^ 1024` on the result is the infinity
with the sign of `q`.  Of a finite result the magnitude is the one nearest to `|q|`
(`rounds_finite_iff`), so a sign and a magnitude can be rounded apart from each other.
-/

namespace Keypad.Binary64

variable {K : Type*} [Field K] [LinearOrder K] [IsStrictOrderedRing K]

/-- The number that a sign and a magnitude stand for. -/
def signedValue (negative : Bool) (m : Magnitude) : ℚ := if negative then -m.value else m.value

/-- Rounding the number `q` to nearest, ties to even, gives `x`; the sign of a zero is left open. -/
def Rounds (q : K) : Binary64 → Prop
  | nan => False
  | infinite negative => (Magnitude.overflowBound : K) ≤ |q| ∧ (negative = true ↔ q < 0)
  | finite negative m =>
    (∀ s m', |(signedValue negative m : K) - q| ≤ |(signedValue s m' : K) - q|) ∧
    (∀ s m', signedValue s m' ≠ signedValue negative m →
      |(signedValue s m' : K) - q| = |(signedValue negative m : K) - q| → Even m.significand) ∧
    |q| < (Magnitude.overflowBound : K)

/-- A sign that a number may have: zero may have both. -/
def IsSignOf (negative : Bool) (q : K) : Prop := if negative then q ≤ 0 else 0 ≤ q

/-! ## Distances with a sign -/

/-- With the sign of `q`, distances from `q` are distances of magnitudes from `|q|`. -/
theorem abs_signedValue_sub {negative : Bool} {q : K} (h : IsSignOf negative q) (m : Magnitude) :
    |(signedValue negative m : K) - q| = |(m.value : K) - abs q| := by
  rcases negative with _ | _
  · have hq : 0 ≤ q := h
    rw [abs_of_nonneg hq]
    rfl
  · have hq : q ≤ 0 := h
    have hneg : (signedValue true m : K) - q = -((m.value : K) - -q) := by
      simp only [signedValue, if_true, Rat.cast_neg]
      ring
    rw [abs_of_nonpos hq, hneg, abs_neg]

theorem abs_signedValue (negative : Bool) (m : Magnitude) :
    |(signedValue negative m : K)| = (m.value : K) := by
  have hpos : (0 : K) ≤ m.value := Rat.cast_nonneg.2 m.value_nonneg
  rcases negative with _ | _
  · exact abs_of_nonneg hpos
  · simp only [signedValue, if_true, Rat.cast_neg, abs_neg, abs_of_nonneg hpos]

/-- With any sign, magnitudes are no nearer to `q` than to `|q|`. -/
theorem abs_value_sub_le (negative : Bool) (m : Magnitude) (q : K) :
    |(m.value : K) - abs q| ≤ |(signedValue negative m : K) - q| := by
  rw [← abs_signedValue (K := K) negative m]
  exact abs_abs_sub_abs_le_abs_sub _ _

theorem signedValue_injective {negative : Bool} {m m' : Magnitude}
    (h : signedValue negative m = signedValue negative m') : m = m' := by
  rcases negative with _ | _
  · exact Magnitude.value_injective h
  · exact Magnitude.value_injective (neg_injective h)

/-- Another sign makes no difference or turns the number around. -/
theorem signedValue_eq_or_neg (s negative : Bool) (m : Magnitude) :
    signedValue s m = signedValue negative m ∨ signedValue s m = -signedValue negative m := by
  rcases s with _ | _ <;> rcases negative with _ | _ <;> simp [signedValue]

/-- A sign that is as near as another one makes no difference: otherwise `q` is zero, and so is the
magnitude. -/
theorem signedValue_eq_of_isNearest {s negative : Bool} {m : Magnitude} {q : K}
    (hm : m.IsNearest |q|)
    (ht : |(signedValue s m : K) - q| = |(signedValue negative m : K) - q|) :
    signedValue s m = signedValue negative m := by
  rcases signedValue_eq_or_neg s negative m with h | h
  · exact h
  rcases abs_eq_abs.1 ht with heq | hneg
  · exact Rat.cast_injective (sub_left_injective heq)
  · have hq : q = 0 := by
      rw [h, Rat.cast_neg] at hneg
      linarith
    have hzero : m = Magnitude.zero := by
      rw [hq, abs_zero] at hm
      refine hm.eq ?_
      simpa only [Magnitude.value_zero, Rat.cast_zero] using
        Magnitude.isNearest_value (K := K) Magnitude.zero
    rw [h, hzero]
    rcases negative with _ | _ <;> simp [signedValue, Magnitude.value_zero]

/-- **A finite number is `q` rounded** exactly if its magnitude is `|q|` rounded, provided that it
has a sign of `q`. -/
theorem rounds_finite_iff {negative : Bool} {q : K} (h : IsSignOf negative q) {m : Magnitude} :
    Rounds q (finite negative m) ↔ m.IsNearest |q| := by
  have hdist := abs_signedValue_sub h
  constructor
  · rintro ⟨hnear, htie, hlt⟩
    refine ⟨fun m' => ?_, fun m' hm ht => ?_, hlt⟩
    · rw [← hdist, ← hdist]
      exact hnear negative m'
    · rw [← hdist, ← hdist] at ht
      exact htie negative m' (fun he => hm (signedValue_injective he)) ht
  · intro hm
    refine ⟨fun s m' => ?_, fun s m' hne ht => ?_, hm.lt_overflow⟩
    · rw [hdist]
      exact (hm.abs_sub_le m').trans (abs_value_sub_le s m' q)
    · by_cases he : m' = m
      · rw [he] at hne ht
        exact absurd (signedValue_eq_of_isNearest hm ht) hne
      · rw [hdist] at ht
        have hle := abs_value_sub_le s m' q
        exact hm.even_of_tie m' he (le_antisymm (hle.trans ht.le) (hm.abs_sub_le m'))

end Keypad.Binary64
