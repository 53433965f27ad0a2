import Keypad.Proofs.Binary64.Reading
import Keypad.Proofs.Decimal.Shortest
import Keypad.Proofs.Numeral.Layout

/-!
# Proofs/Binary64/Canonical — a number has one canonical text, the shortest that reads back

A finite number other than zero is shown as a numeral without a digit too many, in full or with an
exponent part as its magnitude asks for.  Among all numerals that are read as the number, none has
fewer significant digits, and none with as many is nearer to the number (`text_canonical`).

What the layouts write depends on the shortest decimal; at a power of ten that is itself a magnitude
that decimal is on the same side as the number (`value_shortest_lt_iff`).
-/

namespace Keypad

/-! ## Powers of ten that are magnitudes -/

/-- The magnitude one. -/
def Magnitude.one : Magnitude := ⟨0x3FF0000000000000, by decide⟩

theorem Magnitude.value_one : Magnitude.one.value = 1 := by
  have hsignificand : one.significand = 2 ^ 52 := by decide
  have hexponent : one.exponent = 1022 := by decide
  rw [value, hsignificand, hexponent]
  norm_num

namespace Decimal

variable {m : Magnitude}

theorem isNearest_shortest (m : Magnitude) : m.IsNearest (shortest m).value :=
  nearest?_eq_some_iff.1 (nearest?_shortest m)

theorem coefficient_shortest_mod (hm : m ≠ Magnitude.zero) :
    (shortest m).coefficient % 10 ≠ 0 :=
  normalize_coefficient_mod _
    (coefficient_ne_zero hm (nearest?_firstNeighbour (nearest?_exact m) _))

/-- **The shortest decimal is below a power of ten if the magnitude is**, where the power is a
magnitude itself: as a decimal of one digit it has nothing shorter that is nearer. -/
theorem value_shortest_lt_iff (hm : m ≠ Magnitude.zero) {one : Magnitude} {j : ℤ}
    (hone : one.value = 10 ^ j) : (shortest m).value < 10 ^ j ↔ m.value < 10 ^ j := by
  have hnear : one.IsNearest ((10 : ℚ) ^ j) := hone ▸ one.isNearest_value_rat
  constructor
  · intro hlt
    have hle := Magnitude.value_le_value_iff.2 ((isNearest_shortest m).rank_le_rank hnear hlt.le)
    rw [hone] at hle
    refine lt_of_le_of_ne hle fun heq => ?_
    have hvalue : (Decimal.mk 1 j).value = m.value := by
      rw [value, Nat.cast_one, one_mul, heq]
    have hfits : (Decimal.mk 1 j).nearest? = some m := by
      rw [nearest?_eq_some_iff, hvalue]
      exact m.isNearest_value_rat
    have hnearer := abs_shortest_sub_le hm hfits
      (Nat.one_lt_pow (Digit.length_spell_pos _).ne' (by norm_num))
    rw [hvalue, sub_self, abs_zero] at hnearer
    have hsame := sub_eq_zero.1 (abs_eq_zero.1 (le_antisymm hnearer (abs_nonneg _)))
    exact hlt.ne (hsame.trans heq)
  · intro hlt
    by_contra hle
    have hrank := hnear.rank_le_rank (isNearest_shortest m) (not_lt.1 hle)
    exact hlt.not_ge (hone ▸ Magnitude.value_le_value_iff.2 hrank)

theorem value_shortest_lt_one_iff (hm : m ≠ Magnitude.zero) :
    (shortest m).value < 1 ↔ m.value < 1 := by
  have hone : Magnitude.one.value = 10 ^ (0 : ℤ) := Magnitude.value_one.trans (zpow_zero 10).symm
  simpa only [zpow_zero] using value_shortest_lt_iff hm hone

end Decimal

namespace Numeral

/-- The significant digits of a numeral are the coefficient of a decimal of the same value. -/
theorem exists_decimal_significant (n : Numeral) :
    ∃ t : Decimal, t.value = n.decimal.value ∧ t.coefficient < 10 ^ n.significant.length := by
  obtain ⟨k, hk⟩ := Digit.exists_value_eq n.digits
  refine ⟨⟨Digit.value n.significant, n.decimal.exponent + k⟩, ?_, Digit.value_lt _⟩
  have hcoeff : n.decimal.coefficient = Digit.value n.significant * 10 ^ k := hk
  rw [Decimal.value, Decimal.value, hcoeff, zpow_add₀ (by norm_num), zpow_natCast]
  push_cast
  ring

/-- The numeral is read as the number `x`, none with fewer significant digits is, and none with as
many is nearer to the value `v`. -/
structure IsShortest (n : Numeral) (x : Binary64) (v : ℚ) : Prop where
  rounds : Binary64.Rounds n.value x
  length_le : ∀ n' : Numeral, Binary64.Rounds n'.value x →
    n.significant.length ≤ n'.significant.length
  abs_sub_le : ∀ n' : Numeral, Binary64.Rounds n'.value x →
    n'.significant.length = n.significant.length → |n.value - v| ≤ |n'.value - v|

end Numeral

namespace Binary64

variable {m : Magnitude}

/-! ## The bounds of the numbers written in full -/

theorem isNearest_leastInFull : leastInFull.IsNearest ((10 : ℚ) ^ (-6 : ℤ)) := by
  have hnear := Decimal.nearest?_eq_some_iff.1 nearest?_leastInFull
  rwa [Decimal.value, Nat.cast_one, one_mul] at hnear

theorem value_leastBeyondFull : leastBeyondFull.value = 10 ^ 21 := by
  have hsignificand : leastBeyondFull.significand = 5 ^ 21 * 2 ^ 4 := by decide
  have hexponent : leastBeyondFull.exponent = 1091 := by decide
  rw [Magnitude.value, hsignificand, hexponent]
  norm_num

theorem isInFull_iff :
    isInFull m = true ↔ leastInFull.value ≤ m.value ∧ m.value < leastBeyondFull.value := by
  rw [isInFull, Bool.and_eq_true, decide_eq_true_eq, decide_eq_true_eq,
    Magnitude.value_le_value_iff, Magnitude.value_lt_value_iff]

/-! ## The numeral of a number -/

theorem sign_numeral (negative : Bool) (hm : m ≠ Magnitude.zero) :
    (numeral negative m).sign = if signedValue negative m < 0 then some .minus else none := by
  have hpos := Magnitude.value_pos hm
  have hsign : (numeral negative m).sign = Numeral.minusIf negative := by
    rw [numeral]
    split <;> rfl
  rw [hsign]
  cases negative with
  | true => exact (if_pos (neg_neg_of_pos hpos)).symm
  | false => exact (if_neg hpos.not_gt).symm

theorem significant_numeral (negative : Bool) (hm : m ≠ Magnitude.zero) :
    (numeral negative m).significant = Digit.spell (Decimal.shortest m).coefficient := by
  have hmod := Decimal.coefficient_shortest_mod hm
  rw [numeral]
  split
  · exact Numeral.significant_positional negative hmod
  · exact Numeral.significant_scientific negative hmod

/-- In full, the numeral has no digit too many. -/
theorem isPlain_numeral (negative : Bool) (hm : m ≠ Magnitude.zero) (h : isInFull m = true) :
    (numeral negative m).IsPlain m.value := by
  have hplain := Numeral.isPlain_positional negative (Decimal.coefficient_shortest_mod hm)
  have hone := Decimal.value_shortest_lt_one_iff hm
  rw [numeral, if_pos h]
  refine ⟨hplain.scale_eq_none, fun hlt => hplain.whole_of_lt_one (hone.2 hlt), fun hle => ?_,
    hplain.fraction⟩
  exact hplain.whole_of_one_le (not_lt.1 fun hlt => hle.not_gt (hone.1 hlt))

/-- With an exponent part, the numeral has no digit too many.  The power is never zero, for that
would put the number between one and ten. -/
theorem isScientific_numeral (negative : Bool) (hm : m ≠ Magnitude.zero) (h : isInFull m ≠ true) :
    (numeral negative m).IsScientific := by
  have hmod := Decimal.coefficient_shortest_mod hm
  rw [numeral, if_neg h]
  refine Numeral.isScientific_scientific negative hmod fun hpower => h ?_
  obtain ⟨hlower, hupper⟩ := Numeral.value_bounds (Numeral.coefficient_ne_zero_of_mod hmod)
  rw [hpower, zpow_zero] at hlower
  rw [hpower, zero_add] at hupper
  have hone : 1 ≤ m.value := not_lt.1 fun hlt =>
    hlower.not_gt ((Decimal.value_shortest_lt_one_iff hm).2 hlt)
  have hten : (10 : ℚ) ^ (1 : ℤ) ≤ 10 ^ (21 : ℤ) :=
    zpow_le_zpow_right₀ (by norm_num) (by norm_num)
  have hbeyond : leastBeyondFull.value = 10 ^ (21 : ℤ) := value_leastBeyondFull
  have hleast : leastInFull.value ≤ Magnitude.one.value :=
    Magnitude.value_le_value_iff.2 (by decide)
  rw [isInFull_iff, hbeyond]
  constructor
  · exact (hleast.trans_eq Magnitude.value_one).trans hone
  · exact (Decimal.value_shortest_lt_iff hm hbeyond).1 (hupper.trans_le hten)

/-- The distance from a number to a numeral that is read as it is one without signs. -/
theorem abs_value_sub_signedValue {negative : Bool} (hm : m ≠ Magnitude.zero) {n : Numeral}
    (h : Rounds n.value (finite negative m)) :
    |n.value - signedValue negative m| = |n.decimal.value - m.value| := by
  have hsign := isSignOf_of_rounds hm h
  have hdist := abs_signedValue_sub hsign m
  rw [Rat.cast_id, Rat.cast_id, Numeral.abs_value] at hdist
  rw [abs_sub_comm, hdist, abs_sub_comm]

/-- The significant digits of a numeral that is read as a number are those of a decimal that rounds
to its magnitude. -/
theorem exists_nearest?_of_rounds {negative : Bool} (hm : m ≠ Magnitude.zero) {n : Numeral}
    (h : Rounds n.value (finite negative m)) :
    ∃ t : Decimal, t.value = n.decimal.value ∧ t.coefficient < 10 ^ n.significant.length ∧
      t.nearest? = some m := by
  obtain ⟨t, hvalue, hcoeff⟩ := n.exists_decimal_significant
  have hnear := (rounds_finite_iff (isSignOf_of_rounds hm h)).1 h
  rw [Numeral.abs_value, ← hvalue] at hnear
  exact ⟨t, hvalue, hcoeff, Decimal.nearest?_eq_some_iff.2 hnear⟩

/-- **The numeral of a number is the shortest** that is read as it. -/
theorem isShortest_numeral (negative : Bool) (hm : m ≠ Magnitude.zero) :
    (numeral negative m).IsShortest (finite negative m) (signedValue negative m) := by
  have hrounds : Rounds (numeral negative m).value (finite negative m) :=
    (Numeral.toBinary64?_eq_some_iff_rounds.1 (toBinary64?_numeral negative m)).1
  refine ⟨hrounds, fun n' h' => ?_, fun n' h' hlength => ?_⟩
  · obtain ⟨t, -, hcoeff, hfits⟩ := exists_nearest?_of_rounds hm h'
    rw [significant_numeral negative hm]
    exact Decimal.length_shortest_le hm hfits hcoeff
  · obtain ⟨t, hvalue, hcoeff, hfits⟩ := exists_nearest?_of_rounds hm h'
    rw [hlength, significant_numeral negative hm] at hcoeff
    rw [abs_value_sub_signedValue hm hrounds, abs_value_sub_signedValue hm h',
      value_decimal_numeral, ← hvalue]
    exact Decimal.abs_shortest_sub_le hm hfits hcoeff

/-! ## The text of a number -/

/-- **Zero alone is shown as zero.** -/
theorem text_eq_zero_iff (x : Binary64) : x.text = "0" ↔ x.isZero := by
  have hzero : ∀ negative, (zero negative).text = "0" := fun negative => by
    rw [zero, text, if_pos rfl]
  rw [isZero_iff]
  constructor
  · intro h
    have hread : ofText? x.text = ofText? (zero false).text := by rw [h, hzero]
    rw [ofText?_text, ofText?_text, Option.some_inj] at hread
    split at hread
    · exact ⟨true, ‹_›⟩
    · exact ⟨false, hread⟩
  · rintro ⟨negative, rfl⟩
    exact hzero negative

/-- **The text of a number is canonical.**  Zero alone is shown as zero.  A finite number other than
zero is shown as one numeral, with a minus sign if it is below zero and with no sign otherwise: in
full from the magnitude nearest to `10 ^ -6` up to, but not including, `10 ^ 21`, with an exponent
part beyond, and in the fewest digits that are read back, as near to the number as any of that
many. -/
theorem text_canonical :
    (leastInFull.IsNearest ((10 : ℚ) ^ (-6 : ℤ)) ∧ leastBeyondFull.value = 10 ^ 21) ∧
    (∀ x : Binary64, x.text = "0" ↔ x.isZero) ∧
    ∀ negative m, m ≠ Magnitude.zero → ∃ n : Numeral,
      (finite negative m).text = String.ofList n.chars ∧
      n.sign = (if signedValue negative m < 0 then some .minus else none) ∧
      (if leastInFull.value ≤ m.value ∧ m.value < leastBeyondFull.value then n.IsPlain m.value
        else n.IsScientific) ∧
      n.IsShortest (finite negative m) (signedValue negative m) := by
  refine ⟨⟨isNearest_leastInFull, value_leastBeyondFull⟩, text_eq_zero_iff, fun negative m hm => ?_⟩
  refine ⟨numeral negative m, if_neg hm, sign_numeral negative hm, ?_,
    isShortest_numeral negative hm⟩
  split
  · rename_i h
    exact isPlain_numeral negative hm (isInFull_iff.2 h)
  · rename_i h
    exact isScientific_numeral negative hm fun hfull => h (isInFull_iff.1 hfull)

end Binary64

end Keypad
