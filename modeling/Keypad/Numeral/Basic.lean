import Keypad.Decimal.Basic
import Keypad.Digit

/-!
# Numeral/Basic — written numbers: sign, digits, point and exponent part

A numeral is kept as it is written, so that `Numeral.chars` has one text for each numeral and no two
numerals share one.  `Numeral.decimal` is the exact value of its digits, and `Numeral.toBinary64?`
that value rounded to binary64 with the sign put back.
-/

namespace Keypad

/-- A written sign. -/
inductive Sign where
  | plus
  | minus
deriving DecidableEq

namespace Sign

/-- The character of a sign. -/
def char : Sign → Char
  | plus => '+'
  | minus => '-'

/-- The characters of a sign that may be left out. -/
def chars (s : Option Sign) : List Char := (s.map char).toList

end Sign

/-- The exponent part of a numeral: the letter `e`, capital or not, a sign that may be left out, and
digits. -/
structure Scale where
  isCapital : Bool
  sign : Option Sign
  digits : List Digit
  digits_ne_nil : digits ≠ []
deriving DecidableEq

namespace Scale

/-- The characters of an exponent part. -/
def chars (s : Scale) : List Char :=
  (if s.isCapital then 'E' else 'e') :: (Sign.chars s.sign ++ Digit.chars s.digits)

/-- The power of ten of an exponent part. -/
def value (s : Scale) : Int :=
  if s.sign = some Sign.minus then -Digit.value s.digits else Digit.value s.digits

end Scale

/-- A numeral: a sign that may be left out, digits, a point and further digits or neither, and an
exponent part that may be left out; there is a digit on one side of the point at least. -/
structure Numeral where
  sign : Option Sign
  whole : List Digit
  fraction : Option (List Digit)
  scale : Option Scale
  digits_ne_nil : whole ++ fraction.getD [] ≠ []
deriving DecidableEq

namespace Numeral

/-- The characters from the point on, without the exponent part. -/
def fractionChars (fraction : Option (List Digit)) : List Char :=
  match fraction with
  | none => []
  | some ds => '.' :: Digit.chars ds

/-- The characters of an exponent part that may be left out. -/
def scaleChars (scale : Option Scale) : List Char :=
  match scale with
  | none => []
  | some s => s.chars

/-- The text of a numeral. -/
def chars (n : Numeral) : List Char :=
  Sign.chars n.sign ++ (Digit.chars n.whole ++ (fractionChars n.fraction ++ scaleChars n.scale))

/-! ## Values -/

/-- The digits before and after the point. -/
def digits (n : Numeral) : List Digit := n.whole ++ n.fraction.getD []

/-- Whether the numeral is written with a minus sign. -/
def isNegative (n : Numeral) : Bool := n.sign = some Sign.minus

/-- The exact value without the sign: the digits as one whole number, moved by the exponent part and
back by the digits after the point. -/
def decimal (n : Numeral) : Decimal :=
  ⟨Digit.value n.digits,
    (match n.scale with
      | none => 0
      | some s => s.value) - (n.fraction.getD []).length⟩

/-- The value in binary64, rounded to nearest even; none if it rounds to `2 ^ 1024` or beyond.  A
value that rounds to zero keeps its sign. -/
def toBinary64? (n : Numeral) : Option Binary64 :=
  n.decimal.nearest?.map (Binary64.finite n.isNegative)

end Numeral

end Keypad
