/-!
# Calculator/Display — the two lines of the display

The upper line shows the number being typed or the expression so far, the lower line the last
result. A line that has nothing to show holds `0`.
-/

namespace Keypad

/-- The two lines of the display. -/
structure Display where
  upper : String
  lower : String
deriving DecidableEq

namespace Display

/-- What a line with nothing to show holds. -/
def blankLine : String := "0"

/-- What both lines show after a calculation that failed. -/
def errorLine : String := "Error"

/-- The display of a calculator that was just switched on. -/
def blank : Display := ⟨blankLine, blankLine⟩

/-- The line that shows a number being typed. -/
def entryLine (entry : String) : String := if entry = "" then blankLine else entry

/-- The display with another upper line. -/
def showUpper (d : Display) (line : String) : Display := { d with upper := line }

/-- The display with the number being typed on its upper line. -/
def showEntry (d : Display) (entry : String) : Display := d.showUpper (entryLine entry)

/-- The display with another lower line. -/
def showLower (d : Display) (line : String) : Display := { d with lower := line }

/-- The two lines as one text. -/
def text (d : Display) : String := d.upper ++ "\n" ++ d.lower

end Display

end Keypad
