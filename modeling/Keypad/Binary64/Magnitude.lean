/-!
# Binary64/Magnitude — the finite numbers of binary64 without their sign, and rounding to them

A magnitude is a count of **units** of `2 ^ -1074`, the least positive one.  The magnitudes are
numbered in increasing order by their **rank**: the rank counts the `2 ^ 52` multiples of one unit
first, then `2 ^ 52` magnitudes for each further power of two.  Read in binary, the rank is the
exponent field followed by the fraction field of the interchange format, whose numbers of bits are
11 and 52; ranks are therefore written in hexadecimal.

`Magnitude.nearest?` rounds an exact ratio of units to the nearest magnitude, ties to the even rank.
-/

namespace Keypad

/-- A finite binary64 number without its sign, by its place among them in increasing order.  There
are `2047 * 2 ^ 52` of them. -/
structure Magnitude where
  rank : Nat
  rank_lt : rank < 0x7FF0000000000000
deriving DecidableEq

/-- The number of binary places of a unit. -/
@[irreducible] def unitPlaces : Nat := 1074

theorem unitPlaces_eq : unitPlaces = 1074 := by rw [unitPlaces]

/-- The number of units in one. -/
def unitsPerOne : Nat := 1 <<< unitPlaces

theorem unitsPerOne_pos : 0 < unitsPerOne := by
  rw [unitsPerOne, Nat.one_shiftLeft]
  exact Nat.two_pow_pos _

theorem unitsPerOne_shiftLeft {e : Nat} (h : unitPlaces ≤ e) :
    unitsPerOne <<< (e - unitPlaces) = 1 <<< e := by
  rw [unitsPerOne, ← Nat.shiftLeft_add, Nat.add_sub_of_le h]

theorem one_shiftLeft_shiftLeft {e : Nat} (h : e ≤ unitPlaces) :
    (1 <<< e) <<< (unitPlaces - e) = unitsPerOne := by
  rw [unitsPerOne, ← Nat.shiftLeft_add, Nat.add_sub_of_le h]

/-- The whole number nearest to `num / den`; halfway cases go to the even neighbour. -/
def roundQuotient (num den : Nat) : Nat :=
  let quotient := num / den
  let remainder := num % den
  if 2 * remainder < den ∨ 2 * remainder = den ∧ quotient % 2 = 0 then quotient else quotient + 1

/-- A multiple of the divisor is divided exactly. -/
theorem roundQuotient_mul {den : Nat} (h : 0 < den) (n : Nat) :
    roundQuotient (n * den) den = n := by
  simp [roundQuotient, Nat.mul_div_cancel _ h, h]

/-- **The error is at most half**, written without division. -/
theorem roundQuotient_error {den : Nat} (h : 0 < den) (num : Nat) :
    2 * num ≤ 2 * (roundQuotient num den * den) + den ∧
      2 * (roundQuotient num den * den) ≤ 2 * num + den := by
  have hdiv := Nat.div_add_mod num den
  have hmod := Nat.mod_lt num h
  have hcomm := Nat.mul_comm den (num / den)
  simp only [roundQuotient]
  split
  · omega
  · rw [Nat.add_mul]; omega

namespace Magnitude

/-! ## The number of a rank -/

/-- Ranks up to `2 ^ 53` step by one unit; each further `2 ^ 52` ranks double the step. -/
def exponent (m : Magnitude) : Nat := m.rank / 0x10000000000000 - 1

/-- The number of steps of `2 ^ exponent` units. -/
def significand (m : Magnitude) : Nat := m.rank - m.exponent * 0x10000000000000

/-- The number of units of `2 ^ -1074`. -/
def units (m : Magnitude) : Nat := m.significand <<< m.exponent

/-- The magnitude zero. -/
def zero : Magnitude := ⟨0, by decide⟩

@[simp] theorem units_zero : zero.units = 0 := by decide

theorem significand_lt (m : Magnitude) : m.significand < 0x20000000000000 := by
  unfold significand exponent
  omega

/-- Beyond the first `2 ^ 53` ranks a significand has its full 53 binary digits. -/
theorem le_significand {m : Magnitude} (h : 0 < m.exponent) :
    0x10000000000000 ≤ m.significand := by
  unfold significand exponent at *
  omega

/-- Only the rank zero denotes zero. -/
theorem units_eq_zero_iff {m : Magnitude} : m.units = 0 ↔ m = zero := by
  constructor
  · intro h
    rw [units, Nat.shiftLeft_eq] at h
    have hs : m.significand = 0 :=
      (Nat.mul_eq_zero.1 h).resolve_right (Nat.ne_of_gt (Nat.two_pow_pos _))
    have he : m.exponent = 0 := by
      have := @le_significand m
      omega
    obtain ⟨rank, _⟩ := m
    simp only [significand] at hs
    simp only [zero, mk.injEq]
    simp only [he] at hs
    omega
  · rintro rfl; exact units_zero

/-! ## Rounding -/

/-- The exponent of the step at which a ratio of units is rounded: the one of the ratio's power of
two, and never finer than one unit. -/
def stepExponent (num den : Nat) : Nat := (num / den).log2 - 52

/-- The rank of the magnitude nearest to `num / den` units, ties to the even rank, on the ranks
continued beyond the greatest magnitude. -/
def nearestRank (num den : Nat) : Nat :=
  stepExponent num den * 0x10000000000000 + roundQuotient num (den <<< stepExponent num den)

/-- The magnitude nearest to `num / den` units, ties to the even rank; none if the ratio rounds to
`2 ^ 1024` or beyond. -/
def nearest? (num den : Nat) : Option Magnitude :=
  if h : nearestRank num den < 0x7FF0000000000000 then some ⟨nearestRank num den, h⟩ else none

/-- **A magnitude is nearest to itself.** -/
theorem nearest?_units (m : Magnitude) : nearest? m.units 1 = some m := by
  have hstep : stepExponent m.units 1 = m.exponent := by
    have hlt := m.significand_lt
    rcases Nat.eq_zero_or_pos m.exponent with he | he
    · have : m.units < 2 ^ 53 := by simpa [units, he] using hlt
      have : m.units.log2 < 53 := by
        rcases Nat.eq_zero_or_pos m.units with h0 | h0
        · simp [h0]
        · exact (Nat.log2_lt (Nat.ne_of_gt h0)).2 this
      simp only [stepExponent, Nat.div_one]
      omega
    · have hle := le_significand he
      have hlog : m.units.log2 = 52 + m.exponent := by
        have hpos : 0 < 2 ^ m.exponent := Nat.two_pow_pos _
        have hne : m.significand * 2 ^ m.exponent ≠ 0 := Nat.ne_of_gt (Nat.mul_pos (by omega) hpos)
        rw [units, Nat.shiftLeft_eq, Nat.log2_eq_iff hne, Nat.pow_add, Nat.add_right_comm,
          Nat.pow_add]
        exact ⟨Nat.mul_le_mul_right _ hle, (Nat.mul_lt_mul_right hpos).2 hlt⟩
      simp only [stepExponent, Nat.div_one]
      omega
  have hrank : nearestRank m.units 1 = m.rank := by
    rw [nearestRank, hstep, units, Nat.shiftLeft_eq m.significand, Nat.one_shiftLeft,
      roundQuotient_mul (Nat.two_pow_pos _)]
    simp only [significand, exponent]
    omega
  simp only [nearest?, hrank, m.rank_lt, dite_true]

end Magnitude

end Keypad
