import Keypad.Decimal.Basic
import Keypad.Digit

/-!
# Decimal/Shortest — the decimal of fewest digits that rounds to a given magnitude

The exact decimal of a magnitude is cut after its first digit, then after its second, and so on.  At
each cut its two neighbours there are tried, and the first cut with a neighbour that rounds to the
magnitude ends the search: of two such neighbours the nearer one is taken, and the upper one when
the exact decimal lies halfway.  The decimal found rounds to the magnitude, as the exact decimal
does (`nearest?_firstNeighbour`).
-/

namespace Keypad.Decimal

/-- The decimal with the last `places` digits of its coefficient cut off. -/
def cut (d : Decimal) (places : Nat) : Decimal :=
  ⟨d.coefficient / Nat.pow 10 places, d.exponent + places⟩

/-- The next decimal above on the grid of the same exponent. -/
def succ (d : Decimal) : Decimal := ⟨d.coefficient + 1, d.exponent⟩

/-- Whether a decimal is nearer to its cut than to the cut's successor; halfway it is not. -/
def isBelowHalf (d : Decimal) (places : Nat) : Bool :=
  2 * (d.coefficient % Nat.pow 10 places) < Nat.pow 10 places

/-- Of a decimal's two neighbours at a cut, the one that rounds to the magnitude; if both do, the
nearer one, and halfway the upper one. -/
def neighbour? (m : Magnitude) (d : Decimal) (places : Nat) : Option Decimal :=
  let lower := d.cut places
  let upper := lower.succ
  let lowerFits := lower.nearest? = some m
  let upperFits := upper.nearest? = some m
  if lowerFits ∧ (d.isBelowHalf places ∨ ¬ upperFits) then some lower
  else if upperFits then some upper
  else none

/-- The first neighbour that rounds to the magnitude, from the cut of the most places on; the
decimal itself if there is none. -/
def firstNeighbour (m : Magnitude) (d : Decimal) : Nat → Decimal
  | 0 => d
  | places + 1 => (neighbour? m d (places + 1)).getD (firstNeighbour m d places)

/-- The shortest decimal that rounds to a magnitude, without trailing zeros. -/
def shortest (m : Magnitude) : Decimal :=
  (firstNeighbour m (exact m) ((Digit.spell (exact m).coefficient).length - 1)).normalize

/-- A neighbour is only taken if it rounds to the magnitude. -/
theorem nearest?_of_neighbour? {m : Magnitude} {d e : Decimal} {places : Nat}
    (h : neighbour? m d places = some e) : e.nearest? = some m := by
  simp only [neighbour?] at h
  split at h
  · rename_i hl
    obtain rfl := Option.some.inj h
    exact hl.1
  · split at h
    · rename_i hu
      obtain rfl := Option.some.inj h
      exact hu
    · simp at h

/-- **The search ends at a decimal that rounds to the magnitude**, if the decimal it cuts does. -/
theorem nearest?_firstNeighbour {m : Magnitude} {d : Decimal} (h : d.nearest? = some m)
    (places : Nat) : (firstNeighbour m d places).nearest? = some m := by
  induction places with
  | zero => exact h
  | succ places ih =>
    unfold firstNeighbour
    cases hn : neighbour? m d (places + 1) with
    | none => exact ih
    | some e => exact nearest?_of_neighbour? hn

end Keypad.Decimal
