import Keypad.Proofs.Numeral.Significant

/-!
# Proofs/Numeral/Layout — what the two layouts write, digit by digit

A decimal whose coefficient does not end in zero is laid out without a digit too many.  In full, it
has a single zero before the point if it is below one and no zero there at its front otherwise, and
no zero at its end behind the point (`isPlain_positional`).  With an exponent part, it has one digit
before the point (`isScientific_scientific`).  The significant digits are those of the coefficient
either way (`significant_positional`, `significant_scientific`).
-/

namespace Keypad.Numeral

open Digit

/-- The significant digits of a numeral, exponent part and point aside. -/
def significant (n : Numeral) : List Digit := Digit.significant n.digits

/-- The numeral writes a number of magnitude `q` in full: there is no exponent part, before the
point a single zero stands for no whole ones and no zero stands at the front of others, and the
digits after the point, if it is written, do not end in zero. -/
structure IsPlain (n : Numeral) (q : ℚ) : Prop where
  scale_eq_none : n.scale = none
  whole_of_lt_one : q < 1 → ∃ z : Digit, z.val = 0 ∧ n.whole = [z]
  whole_of_one_le : 1 ≤ q → LeadsWithoutZero n.whole
  fraction : ∀ ds, n.fraction = some ds → EndsWithoutZero ds

/-- The numeral is written with one digit before the point, which is not zero, digits after the
point, if it is written, that do not end in zero, and an exponent part: a small letter, a sign and
digits without a leading zero. -/
structure IsScientific (n : Numeral) : Prop where
  whole : ∃ d : Digit, d.val ≠ 0 ∧ n.whole = [d]
  fraction : ∀ ds, n.fraction = some ds → EndsWithoutZero ds
  scale : ∃ s sign, n.scale = some s ∧ s.isCapital = false ∧ s.sign = some sign ∧
    LeadsWithoutZero s.digits

variable {d : Decimal} {ds es : List Digit}

/-- Digits after the point are written only if there are any. -/
theorem fractionOf_eq_some_iff : fractionOf ds = some es ↔ ds = es ∧ ds ≠ [] := by
  rw [fractionOf]
  split
  · rename_i h
    simp [h]
  · rename_i h
    simp [h]

/-- The digits after some place end like all of them do. -/
theorem endsWithoutZero_of_fractionOf_drop {k : ℕ} (h : EndsWithoutZero ds)
    (hfraction : fractionOf (ds.drop k) = some es) : EndsWithoutZero es := by
  obtain ⟨rfl, hne⟩ := fractionOf_eq_some_iff.1 hfraction
  exact h.drop (not_le.1 fun hle => hne (List.drop_eq_nil_of_le hle))

theorem coefficient_ne_zero_of_mod (h : d.coefficient % 10 ≠ 0) : d.coefficient ≠ 0 := fun h0 =>
  h (congrArg (· % 10) h0)

/-! ## In full -/

/-- All places of a decimal, from the one of ones or from its first digit on. -/
theorem digits_positional (negative : Bool) (d : Decimal) :
    (positional negative d).digits
      = List.replicate ((-d.exponent).toNat + 1 - (spell d.coefficient).length) 0
        ++ spell d.coefficient ++ List.replicate d.exponent.toNat 0 := by
  simp only [digits, positional, getD_fractionOf, List.take_append_drop, padded]

theorem whole_positional (negative : Bool) (d : Decimal) :
    (positional negative d).whole = (positional negative d).digits.take
      ((positional negative d).digits.length - (-d.exponent).toNat) := by
  rw [digits_positional]
  rfl

theorem fraction_positional (negative : Bool) (d : Decimal) :
    (positional negative d).fraction = fractionOf ((positional negative d).digits.drop
      ((positional negative d).digits.length - (-d.exponent).toNat)) := by
  rw [digits_positional]
  rfl

/-- **Written in full, a decimal has the significant digits of its coefficient.** -/
theorem significant_positional (negative : Bool) (h : d.coefficient % 10 ≠ 0) :
    (positional negative d).significant = spell d.coefficient := by
  rw [significant, digits_positional]
  exact significant_eq (leadsWithoutZero_spell (coefficient_ne_zero_of_mod h))
    (endsWithoutZero_spell h) _ _

/-- The value of a decimal without negative exponents. -/
theorem value_eq_div (d : Decimal) :
    d.value = (d.coefficient * 10 ^ d.exponent.toNat : ℕ) / (10 ^ (-d.exponent).toNat : ℕ) := by
  rw [Decimal.value, Decimal.ten_zpow, mul_div_assoc']
  push_cast
  rfl

/-- A decimal below one has no more digits than there are after the point. -/
theorem length_spell_le_of_lt_one (hd : d.coefficient ≠ 0) (h : d.value < 1) :
    (spell d.coefficient).length ≤ (-d.exponent).toNat ∧ d.exponent.toNat = 0 := by
  rw [value_eq_div, div_lt_one (by positivity), Nat.cast_lt] at h
  have hle : d.coefficient ≤ d.coefficient * 10 ^ d.exponent.toNat :=
    Nat.le_mul_of_pos_right _ (by positivity)
  have hlength := length_spell_le hd (hle.trans_lt h)
  have hpos := length_spell_pos d.coefficient
  exact ⟨hlength, by omega⟩

/-- A decimal from one on has more digits than there are after the point. -/
theorem lt_length_spell_of_one_le (h : 1 ≤ d.value) :
    (-d.exponent).toNat < (spell d.coefficient).length := by
  rcases Nat.eq_zero_or_pos (-d.exponent).toNat with h0 | hpos
  · rw [h0]
    exact length_spell_pos _
  · have hexp : d.exponent.toNat = 0 := by omega
    rw [value_eq_div, hexp, pow_zero, mul_one, one_le_div (by positivity), Nat.cast_le] at h
    exact (Nat.pow_lt_pow_iff_right (by norm_num)).1 (h.trans_lt (lt_pow_length_spell _))

/-- Below one, the ones are the first of the zeros that fill the places up. -/
theorem whole_positional_of_lt_one (negative : Bool) (hd : d.coefficient ≠ 0) (h : d.value < 1) :
    (positional negative d).whole = [0] := by
  obtain ⟨hlength, hexp⟩ := length_spell_le_of_lt_one hd h
  obtain ⟨k, hk⟩ := Nat.exists_eq_add_of_le hlength
  have hzeros : (-d.exponent).toNat + 1 - (spell d.coefficient).length = k + 1 := by omega
  have hdigits : (positional negative d).digits
      = 0 :: (List.replicate k 0 ++ spell d.coefficient) := by
    rw [digits_positional, hzeros, hexp, List.replicate_zero, List.append_nil, List.replicate_succ,
      List.cons_append]
  have hcount : (positional negative d).digits.length - (-d.exponent).toNat = 1 := by
    rw [hdigits, List.length_cons, List.length_append, List.length_replicate]
    omega
  rw [whole_positional, hcount, hdigits, List.take_succ_cons, List.take_zero]

/-- From one on, no zeros are needed at the front. -/
theorem leadsWithoutZero_whole_positional (negative : Bool) (hd : d.coefficient ≠ 0)
    (h : 1 ≤ d.value) : LeadsWithoutZero (positional negative d).whole := by
  have hlength := lt_length_spell_of_one_le h
  have hzeros : (-d.exponent).toNat + 1 - (spell d.coefficient).length = 0 := by omega
  rw [whole_positional, digits_positional, hzeros, List.replicate_zero, List.nil_append]
  refine ((leadsWithoutZero_spell hd).append _).take ?_
  rw [List.length_append]
  omega

/-- If there are digits after the point, no zeros are needed at the end. -/
theorem endsWithoutZero_fraction_positional (negative : Bool) (h : d.coefficient % 10 ≠ 0)
    (hes : (positional negative d).fraction = some es) : EndsWithoutZero es := by
  rw [fraction_positional] at hes
  have hexp : d.exponent.toNat = 0 := by
    by_contra hpos
    have hcount : (-d.exponent).toNat = 0 := by omega
    rw [hcount, Nat.sub_zero, List.drop_length] at hes
    exact (fractionOf_eq_some_iff.1 hes).2 rfl
  have hends : EndsWithoutZero (positional negative d).digits := by
    rw [digits_positional, hexp, List.replicate_zero, List.append_nil]
    exact (endsWithoutZero_spell h).append _
  exact endsWithoutZero_of_fractionOf_drop hends hes

/-- **Written in full, a decimal has no digit too many.** -/
theorem isPlain_positional (negative : Bool) (h : d.coefficient % 10 ≠ 0) :
    (positional negative d).IsPlain d.value where
  scale_eq_none := rfl
  whole_of_lt_one hlt :=
    ⟨0, rfl, whole_positional_of_lt_one negative (coefficient_ne_zero_of_mod h) hlt⟩
  whole_of_one_le hle :=
    leadsWithoutZero_whole_positional negative (coefficient_ne_zero_of_mod h) hle
  fraction _ hes := endsWithoutZero_fraction_positional negative h hes

/-! ## With an exponent part -/

/-- **With an exponent part, a decimal has the significant digits of its coefficient.** -/
theorem significant_scientific (negative : Bool) (h : d.coefficient % 10 ≠ 0) :
    (scientific negative d).significant = spell d.coefficient := by
  have hplain := significant_eq (leadsWithoutZero_spell (coefficient_ne_zero_of_mod h))
    (endsWithoutZero_spell h) 0 0
  rw [List.replicate_zero, List.nil_append, List.append_nil] at hplain
  rw [significant, digits_scientific, hplain]

/-- **With an exponent part, a decimal has no digit too many**, if the exponent part is not that of
the power zero. -/
theorem isScientific_scientific (negative : Bool) (h : d.coefficient % 10 ≠ 0)
    (hpower : leadingPower d ≠ 0) : (scientific negative d).IsScientific := by
  obtain ⟨x, ds, hds, hx⟩ := leadsWithoutZero_spell (coefficient_ne_zero_of_mod h)
  refine ⟨⟨x, hx, congrArg (List.take 1) hds⟩, fun es hes => ?_, ?_⟩
  · exact endsWithoutZero_of_fractionOf_drop (endsWithoutZero_spell h) hes
  · exact ⟨scaleOf (leadingPower d), _, rfl, rfl, rfl,
      leadsWithoutZero_spell (Int.natAbs_ne_zero.2 hpower)⟩

/-- The leading power of ten is the greatest that is no greater than the decimal. -/
theorem value_bounds (hd : d.coefficient ≠ 0) :
    10 ^ leadingPower d ≤ d.value ∧ d.value < 10 ^ (leadingPower d + 1) := by
  have hpos := length_spell_pos d.coefficient
  have hlower : (10 : ℚ) ^ ((spell d.coefficient).length - 1) ≤ d.coefficient := by
    exact_mod_cast pow_length_spell_le hd
  have hupper : (d.coefficient : ℚ) < 10 ^ (spell d.coefficient).length := by
    exact_mod_cast lt_pow_length_spell d.coefficient
  have hpower : leadingPower d + 1 = (spell d.coefficient).length + d.exponent := by
    rw [leadingPower]
    omega
  have htens : (0 : ℚ) < 10 ^ d.exponent := by positivity
  constructor
  · rw [leadingPower, add_comm, zpow_add₀ (by norm_num), zpow_natCast]
    exact mul_le_mul_of_nonneg_right hlower htens.le
  · rw [hpower, zpow_add₀ (by norm_num), zpow_natCast]
    exact mul_lt_mul_of_pos_right hupper htens

end Keypad.Numeral
