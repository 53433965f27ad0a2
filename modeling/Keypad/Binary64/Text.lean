import Keypad.Decimal.Shortest
import Keypad.Numeral.Layout
import Keypad.Numeral.Reader
import Keypad.Text.WhiteSpace

/-!
# Binary64/Text — binary64 numbers as the calculator shows and reads them

`Binary64.text` writes a number with the fewest digits that read back as the number: in full from
`10 ^ -6` up to, but not including, `10 ^ 21`, and with an exponent part beyond.  Both zeros are
written `0`.  `Binary64.ofText?` reads a numeral rounded to nearest, or one of the three words for
the other numbers, with white space allowed around it; a numeral too great for binary64 is refused.
-/

namespace Keypad.Binary64

/-! ## The words for numbers that are not finite -/

/-- The word for NaN. -/
def nanWord : String := "NaN"

/-- The word for the infinity of a sign. -/
def infinityWord (negative : Bool) : String := if negative then "-Infinity" else "Infinity"

/-! ## Writing -/

/-- The least magnitude written in full: the one nearest to `10 ^ -6`. -/
def leastInFull : Magnitude := ⟨0x3EB0C6F7A0B5ED8D, by decide⟩

/-- The magnitudes from this one on have an exponent part: `10 ^ 21`. -/
def leastBeyondFull : Magnitude := ⟨0x444B1AE4D6E2EF50, by decide⟩

theorem nearest?_leastInFull : Decimal.nearest? ⟨1, -6⟩ = some leastInFull := by decide +kernel

/-- Whether a magnitude is written in full. -/
def isInFull (m : Magnitude) : Bool := leastInFull.rank ≤ m.rank && m.rank < leastBeyondFull.rank

/-- The numeral of a finite number that is not zero. -/
def numeral (negative : Bool) (m : Magnitude) : Numeral :=
  if isInFull m then Numeral.positional negative (Decimal.shortest m)
  else Numeral.scientific negative (Decimal.shortest m)

/-- The text of a number. -/
def text : Binary64 → String
  | nan => nanWord
  | infinite negative => infinityWord negative
  | finite negative m =>
    if m = Magnitude.zero then "0" else String.ofList (numeral negative m).chars

/-! ## Reading -/

/-- The number that a text without white space around it stands for. -/
def ofSolidText? (cs : List Char) : Option Binary64 :=
  if cs = nanWord.toList then some nan
  else if cs = (infinityWord false).toList then some (infinite false)
  else if cs = (infinityWord true).toList then some (infinite true)
  else (Numeral.ofChars? cs).bind Numeral.toBinary64?

/-- The number that a text stands for, white space around it aside. -/
def ofText? (s : String) : Option Binary64 := ofSolidText? (Text.trim s.toList)

end Keypad.Binary64
