import Keypad.Binary64.Basic

/-!
# Binary64/Arithmetic — the operations of IEEE 754, each the exact result rounded once

On finite numbers every operation forms its exact result as a ratio of units of `2 ^ -1074` and
rounds it by `Binary64.nearest`, to nearest with ties to even.  The remaining cases are those of the
standard: an operation without a meaningful result gives NaN, a finite number divided by zero an
infinity, and the sign of a product or quotient is the exclusive or of the signs.
-/

namespace Keypad.Binary64

/-! ## Signs -/

/-- The number with its sign flipped. -/
def neg : Binary64 → Binary64
  | nan => nan
  | infinite s => infinite !s
  | finite s m => finite (!s) m

instance : Neg Binary64 := ⟨neg⟩

theorem neg_neg (x : Binary64) : - -x = x := by
  cases x <;> simp [Neg.neg, neg]

/-- The units of a finite number, with its sign. -/
def signedUnits (negative : Bool) (m : Magnitude) : Int :=
  if negative then -m.units else m.units

/-! ## Sums and differences

A sum that is exactly zero is positive, unless both operands are negative zeros. -/

/-- The sum. -/
def add : Binary64 → Binary64 → Binary64
  | finite s a, finite t b =>
    let total := signedUnits s a + signedUnits t b
    if total = 0 then zero (s && t) else nearest (total < 0) total.natAbs 1
  | infinite s, infinite t => if s = t then infinite s else nan
  | infinite s, finite _ _ => infinite s
  | finite _ _, infinite t => infinite t
  | nan, _ => nan
  | _, nan => nan

/-- The difference: the sum with the second operand negated. -/
def sub (x y : Binary64) : Binary64 := add x (neg y)

instance : Add Binary64 := ⟨add⟩
instance : Sub Binary64 := ⟨sub⟩

/-! ## Products and quotients -/

/-- The product. -/
def mul : Binary64 → Binary64 → Binary64
  | finite s a, finite t b => nearest (s ^^ t) (a.units * b.units) unitsPerOne
  | infinite s, infinite t => infinite (s ^^ t)
  | infinite s, finite t b => if b = Magnitude.zero then nan else infinite (s ^^ t)
  | finite s a, infinite t => if a = Magnitude.zero then nan else infinite (s ^^ t)
  | nan, _ => nan
  | _, nan => nan

/-- The quotient; a number other than zero divided by zero gives an infinity, zero by zero NaN. -/
def div : Binary64 → Binary64 → Binary64
  | finite s a, finite t b =>
    if b = Magnitude.zero then
      if a = Magnitude.zero then nan else infinite (s ^^ t)
    else nearest (s ^^ t) (a.units * unitsPerOne) b.units
  | infinite _, infinite _ => nan
  | infinite s, finite t _ => infinite (s ^^ t)
  | finite s _, infinite t => zero (s ^^ t)
  | nan, _ => nan
  | _, nan => nan

instance : Mul Binary64 := ⟨mul⟩
instance : Div Binary64 := ⟨div⟩

/-! ## Square roots

The root of `u` units is the root of `u * unitsPerOne`, counted in units.  When the whole part of
that root is not exact, the root lies strictly between two whole numbers of units; it is rounded
from the half between them, on whose side of every rounding boundary the root lies. -/

/-- Twice the square root of `n` if that root is whole, else an odd number with the same whole part
of its half. -/
def doubleRoot (n : Nat) : Nat :=
  2 * n.sqrt + if n.sqrt * n.sqrt = n then 0 else 1

/-- The square root: NaN for numbers below zero; a zero is its own root. -/
def sqrt : Binary64 → Binary64
  | nan => nan
  | infinite s => if s then nan else infinite s
  | finite s a =>
    if a = Magnitude.zero then finite s a
    else if s then nan
    else nearest false (doubleRoot (a.units * unitsPerOne)) 2

end Keypad.Binary64
