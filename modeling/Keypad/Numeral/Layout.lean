import Keypad.Numeral.Basic

/-!
# Numeral/Layout — decimals laid out as numerals, in full or with an exponent part

`Numeral.positional` writes every place of a decimal; `Numeral.scientific` writes one digit before
the point and the power of ten after the letter `e`, with its sign.  Either way the digits are those
of the coefficient, with zeros added only where places have to be filled.
-/

namespace Keypad.Numeral

/-- A written minus sign for numbers below zero, nothing for the others. -/
def minusIf (negative : Bool) : Option Sign := if negative then some .minus else none

/-- The digits after the point, left out with the point if there are none. -/
def fractionOf (ds : List Digit) : Option (List Digit) := if ds = [] then none else some ds

@[simp] theorem getD_fractionOf (ds : List Digit) : (fractionOf ds).getD [] = ds := by
  unfold fractionOf
  split
  · rename_i h
    exact h.symm
  · rfl

/-- The digits of a number, filled up with leading zeros to a number of places. -/
def padded (places n : Nat) : List Digit :=
  List.replicate (places - (Digit.spell n).length) 0 ++ Digit.spell n

theorem padded_ne_nil (places n : Nat) : padded places n ≠ [] := by
  simp [padded, Digit.spell_ne_nil]

theorem le_length_padded (places n : Nat) : places ≤ (padded places n).length := by
  simp only [padded, List.length_append, List.length_replicate]
  omega

/-- The decimal written in full, with a zero before the point if nothing else stands there. -/
def positional (negative : Bool) (d : Decimal) : Numeral :=
  let places := (-d.exponent).toNat
  let ds := padded (places + 1) d.coefficient ++ List.replicate d.exponent.toNat 0
  { sign := minusIf negative
    whole := ds.take (ds.length - places)
    fraction := fractionOf (ds.drop (ds.length - places))
    scale := none
    digits_ne_nil := by simp [ds, padded_ne_nil] }

/-- The exponent part of a power of ten, with its sign. -/
def scaleOf (power : Int) : Scale where
  isCapital := false
  sign := some (if power < 0 then .minus else .plus)
  digits := Digit.spell power.natAbs
  digits_ne_nil := Digit.spell_ne_nil _

/-- The power of ten of a decimal's leading digit. -/
def leadingPower (d : Decimal) : Int :=
  d.exponent + ((Digit.spell d.coefficient).length - 1 : Nat)

/-- The decimal written with one digit before the point and an exponent part. -/
def scientific (negative : Bool) (d : Decimal) : Numeral where
  sign := minusIf negative
  whole := (Digit.spell d.coefficient).take 1
  fraction := fractionOf ((Digit.spell d.coefficient).drop 1)
  scale := some (scaleOf (leadingPower d))
  digits_ne_nil := by simp [Digit.spell_ne_nil]

@[simp] theorem digits_scientific (negative : Bool) (d : Decimal) :
    (scientific negative d).digits = Digit.spell d.coefficient := by
  simp only [scientific, digits, getD_fractionOf, List.take_append_drop]

@[simp] theorem value_scaleOf (power : Int) : (scaleOf power).value = power := by
  simp only [scaleOf, Scale.value, Digit.value_spell]
  by_cases h : power < 0
  · simp only [h, if_true]; omega
  · simp only [h, if_false, Option.some.injEq, reduceCtorEq]; omega

end Keypad.Numeral
