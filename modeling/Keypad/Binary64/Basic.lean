import Keypad.Binary64.Magnitude

/-!
# Binary64/Basic — the numbers of IEEE 754 binary64, with one NaN

A number is a signed magnitude, a signed infinity or NaN.  NaN carries neither sign nor payload, so
that equality of values is equality of what a computation can depend on.  `ofBits` reads the 64-bit
interchange format and `toBits` writes it, with the quiet NaN of payload zero for NaN;
`ofBits_toBits` says that nothing is lost.
-/

namespace Keypad

/-- A binary64 number; zeros are signed. -/
inductive Binary64 where
  | nan
  | infinite (negative : Bool)
  | finite (negative : Bool) (magnitude : Magnitude)
deriving DecidableEq

namespace Binary64

/-- The zero of a sign. -/
def zero (negative : Bool) : Binary64 := finite negative Magnitude.zero

/-- Whether the number is one of the two zeros. -/
def isZero : Binary64 → Bool
  | finite _ m => m = Magnitude.zero
  | _ => false

theorem isZero_iff {x : Binary64} : x.isZero ↔ ∃ negative, x = zero negative := by
  cases x <;> simp [isZero, zero]

/-- The number of a sign nearest to `num / den` units of `2 ^ -1074`, ties to even; a ratio that
rounds to `2 ^ 1024` or beyond gives the infinity of the sign. -/
def nearest (negative : Bool) (num den : Nat) : Binary64 :=
  match Magnitude.nearest? num den with
  | some m => finite negative m
  | none => infinite negative

/-- The number of a natural number, rounded to nearest even. -/
def ofNat (n : Nat) : Binary64 := nearest false (n * unitsPerOne) 1

/-! ## The interchange format

The lower 63 bits of a finite number are the rank of its magnitude.  The rank after the greatest
magnitude stands for infinity and all later ones for NaN. -/

/-- The number that 64 bits stand for. -/
def ofBits (bits : UInt64) : Binary64 :=
  let negative := 0x8000000000000000 ≤ bits.toNat
  let rank := bits.toNat % 0x8000000000000000
  if h : rank < 0x7FF0000000000000 then finite negative ⟨rank, h⟩
  else if rank = 0x7FF0000000000000 then infinite negative
  else nan

/-- The bits of the infinity or the finite number with the given sign and rank. -/
private def signedRank (negative : Bool) (rank : Nat) : UInt64 :=
  UInt64.ofNat ((if negative then 0x8000000000000000 else 0) + rank)

/-- The bits of a number; NaN is quiet, positive and of payload zero. -/
def toBits : Binary64 → UInt64
  | nan => signedRank false 0x7FF8000000000000
  | infinite negative => signedRank negative 0x7FF0000000000000
  | finite negative m => signedRank negative m.rank

private theorem toNat_signedRank {negative : Bool} {rank : Nat} (h : rank < 0x8000000000000000) :
    (signedRank negative rank).toNat = (if negative then 0x8000000000000000 else 0) + rank := by
  rw [signedRank, UInt64.toNat_ofNat_of_lt']
  cases negative <;> simp only [UInt64.size, Bool.false_eq_true, if_true, if_false] <;> omega

/-- **Writing the bits of a number and reading them gives the number back.** -/
theorem ofBits_toBits (x : Binary64) : ofBits x.toBits = x := by
  cases x with
  | nan => decide
  | infinite negative => cases negative <;> decide
  | finite negative m =>
    obtain ⟨rank, h⟩ := m
    have hrank : rank < 0x8000000000000000 := by omega
    have hsign : decide (0x8000000000000000 ≤ (signedRank negative rank).toNat) = negative := by
      rw [toNat_signedRank hrank]
      cases negative
      · exact decide_eq_false (by simp only [Bool.false_eq_true, if_false]; omega)
      · exact decide_eq_true (by simp only [if_true]; omega)
    have hbits : (signedRank negative rank).toNat % 0x8000000000000000 = rank := by
      rw [toNat_signedRank hrank]
      cases negative <;> simp only [Bool.false_eq_true, if_true, if_false] <;> omega
    simp only [ofBits, toBits, hbits, h, dite_true]
    exact congrArg (finite · ⟨rank, h⟩) hsign

end Binary64

end Keypad
