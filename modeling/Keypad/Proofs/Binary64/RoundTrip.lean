import Keypad.Proofs.Numeral.Text
import Keypad.Proofs.Numeral.Value

/-!
# Proofs/Binary64/RoundTrip — the text of a number reads back as the number

The shortest decimal of a magnitude rounds to it, both layouts keep the decimal's value, and the
text of the resulting numeral is read as that value.  So reading undoes writing (`ofText?_text`):
only the sign of zero is not written.  On the interchange format nothing else is lost but the sign
and payload of a NaN (`toBits_ofText?_text`).
-/

namespace Keypad

/-! ## Finite numbers -/

/-- The exact decimal of a magnitude rounds to it. -/
theorem Decimal.nearest?_exact (m : Magnitude) : (exact m).nearest? = some m := by
  rw [nearest?_eq_some_iff, value_exact]
  exact m.isNearest_value

/-- **The shortest decimal of a magnitude rounds to it.** -/
theorem Decimal.nearest?_shortest (m : Magnitude) : (shortest m).nearest? = some m := by
  rw [shortest, nearest?_congr (value_normalize _)]
  exact nearest?_firstNeighbour (nearest?_exact m) _

namespace Binary64

theorem isNegative_numeral (negative : Bool) (m : Magnitude) :
    (numeral negative m).isNegative = negative := by
  rw [numeral]
  split
  · exact Numeral.isNegative_positional _ _
  · exact Numeral.isNegative_scientific _ _

/-- Both layouts keep the value of the shortest decimal. -/
theorem value_decimal_numeral (negative : Bool) (m : Magnitude) :
    (numeral negative m).decimal.value = (Decimal.shortest m).value := by
  rw [numeral]
  split
  · exact Numeral.value_decimal_positional _ _
  · rw [Numeral.decimal_scientific]

/-- **The numeral of a magnitude and a sign stands for them.** -/
theorem toBinary64?_numeral (negative : Bool) (m : Magnitude) :
    (numeral negative m).toBinary64? = some (finite negative m) := by
  rw [Numeral.toBinary64?, Decimal.nearest?_congr (value_decimal_numeral negative m),
    Decimal.nearest?_shortest, isNegative_numeral]
  rfl

/-! ## All numbers -/

/-- **Reading undoes writing**, but for the sign of zero. -/
theorem ofText?_text (x : Binary64) :
    ofText? x.text = some (if x = zero true then zero false else x) := by
  rcases x with _ | negative | ⟨negative, m⟩
  · decide +kernel
  · rcases negative with _ | _ <;> decide +kernel
  · by_cases hm : m = Magnitude.zero
    · subst hm
      rcases negative with _ | _ <;> decide +kernel
    · have hne : finite negative m ≠ zero true := fun h => hm (Binary64.finite.inj h).2
      rw [if_neg hne, text, if_neg hm, ofText?_chars, toBinary64?_numeral]

/-- The number without the sign of a zero: this much of a number its text keeps. -/
def withoutZeroSign (x : Binary64) : Binary64 := if x = zero true then zero false else x

/-- The sign of a zero is not written. -/
theorem text_withoutZeroSign (x : Binary64) : x.withoutZeroSign.text = x.text := by
  unfold withoutZeroSign
  split
  · rename_i h
    rw [h]
    rfl
  · rfl

theorem ofText?_empty : ofText? "" = none := by decide +kernel

/-- No number has an empty text. -/
theorem text_ne_empty (x : Binary64) : x.text ≠ "" := by
  intro h
  have hread := ofText?_text x
  rw [h, ofText?_empty] at hread
  cases hread

/-! ## The interchange format -/

theorem ofBits_of_lt {bits : UInt64}
    (h : bits.toNat % 0x8000000000000000 < 0x7FF0000000000000) :
    ofBits bits = finite (0x8000000000000000 ≤ bits.toNat) ⟨_, h⟩ := dif_pos h

theorem ofBits_of_eq {bits : UInt64}
    (h : bits.toNat % 0x8000000000000000 = 0x7FF0000000000000) :
    ofBits bits = infinite (0x8000000000000000 ≤ bits.toNat) := by
  rw [ofBits, dif_neg (by omega), if_pos h]

theorem ofBits_of_gt {bits : UInt64}
    (h : 0x7FF0000000000000 < bits.toNat % 0x8000000000000000) : ofBits bits = nan := by
  rw [ofBits, dif_neg (by omega), if_neg (by omega)]

theorem ofBits_eq_nan_iff {bits : UInt64} :
    ofBits bits = nan ↔ 0x7FF0000000000000 < bits.toNat % 0x8000000000000000 := by
  refine ⟨fun h => ?_, ofBits_of_gt⟩
  by_contra hle
  rcases lt_or_eq_of_le (not_lt.1 hle) with hlt | heq
  · rw [ofBits_of_lt hlt] at h
    cases h
  · rw [ofBits_of_eq heq] at h
    cases h

/-- The sign bit and the rank of 64 bits make up the bits. -/
theorem bits_eq_of_sign_of_rank {a b : UInt64}
    (hsign : decide (0x8000000000000000 ≤ a.toNat) = decide (0x8000000000000000 ≤ b.toNat))
    (hrank : a.toNat % 0x8000000000000000 = b.toNat % 0x8000000000000000) : a = b := by
  have ha := a.toNat_lt
  have hb := b.toNat_lt
  rw [decide_eq_decide] at hsign
  exact UInt64.toNat_inj.1 (by omega)

/-- Bits that do not stand for NaN can be told from the number they stand for. -/
theorem bits_eq_of_ofBits_eq {a b : UInt64} (hnan : ofBits a ≠ nan) (h : ofBits a = ofBits b) :
    a = b := by
  have hnan' : ofBits b ≠ nan := h ▸ hnan
  rw [Ne, ofBits_eq_nan_iff, not_lt] at hnan hnan'
  rcases lt_or_eq_of_le hnan with ha | ha <;> rcases lt_or_eq_of_le hnan' with hb | hb
  · rw [ofBits_of_lt ha, ofBits_of_lt hb] at h
    obtain ⟨hsign, hm⟩ := Binary64.finite.inj h
    exact bits_eq_of_sign_of_rank hsign (congrArg Magnitude.rank hm)
  · rw [ofBits_of_lt ha, ofBits_of_eq hb] at h
    cases h
  · rw [ofBits_of_eq ha, ofBits_of_lt hb] at h
    cases h
  · rw [ofBits_of_eq ha, ofBits_of_eq hb] at h
    exact bits_eq_of_sign_of_rank (Binary64.infinite.inj h) (ha.trans hb.symm)

/-- **Reading 64 bits and writing them gives the bits back**, unless they stand for NaN. -/
theorem toBits_ofBits {bits : UInt64} (h : ofBits bits ≠ nan) : (ofBits bits).toBits = bits :=
  bits_eq_of_ofBits_eq (by rwa [ofBits_toBits]) (ofBits_toBits _)

/-- **Reading the text of a number gives its bits back**: those of zero for the negative zero, and
those of the quiet NaN without payload for every NaN. -/
theorem toBits_ofText?_text (bits : UInt64) :
    (ofText? (ofBits bits).text).map toBits = some
      (if 0x7FF0000000000000 < bits.toNat % 0x8000000000000000 then 0x7FF8000000000000
      else if bits = 0x8000000000000000 then 0
      else bits) := by
  rw [ofText?_text, Option.map_some]
  refine congrArg some ?_
  by_cases hnan : ofBits bits = nan
  · rw [if_pos (ofBits_eq_nan_iff.1 hnan), hnan]
    decide
  · rw [if_neg fun h => hnan (ofBits_eq_nan_iff.2 h)]
    by_cases hzero : bits = 0x8000000000000000
    · subst hzero
      decide
    · have hne : ofBits bits ≠ zero true := fun h =>
        hzero (bits_eq_of_ofBits_eq hnan (h.trans (by decide)))
      rw [if_neg hzero, if_neg hne, toBits_ofBits hnan]

end Binary64

end Keypad
