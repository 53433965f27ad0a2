import Keypad.Calculator.Basic
import Keypad.Key.Script

/-!
# Calculator/Script — what the display shows after a script

All keys of a script are read before the first is pressed, so that a script with an unknown key does
nothing.
-/

namespace Keypad

/-- The display after the keys of a script, pressed on a fresh calculator. -/
def runScript (source : String) : Except UnknownKey Display :=
  (Script.read source).map fun keys => (Calculator.fresh.press keys).display

/-- A script that reads shows what its keys make of a fresh calculator. -/
theorem runScript_of_read {source : String} {keys : List Key} (h : Script.read source = .ok keys) :
    runScript source = .ok (Calculator.fresh.press keys).display := by
  rw [runScript, h]
  rfl

/-- A script that does not read shows nothing. -/
theorem runScript_of_read_error {source : String} {e : UnknownKey}
    (h : Script.read source = .error e) : runScript source = .error e := by
  rw [runScript, h]
  rfl

end Keypad
