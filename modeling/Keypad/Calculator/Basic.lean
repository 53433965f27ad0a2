import Keypad.Calculator.Display
import Keypad.Expression.Basic
import Keypad.Expression.Evaluation
import Keypad.Key.Basic

/-!
# Calculator/Basic — the state of a calculator and what its keys do

The number being typed is kept as text, the **entry**, until an operator or the equals key commits
it to the expression.  An entry that spells no number is dropped when it is committed.  A result
becomes the entry, so that the next operator takes it up through its text.
-/

namespace Keypad

/-- The entry that an evaluation leaves: its number, or nothing after a fault. -/
def Outcome.entry : Outcome → String
  | .ok x => x.text
  | .error _ => ""

/-- The line that shows an evaluation. -/
def Outcome.line : Outcome → String
  | .ok x => x.text
  | .error _ => Display.errorLine

/-- A calculator: the number being typed, the expression committed so far, the operator that is
pending at its end, and the display. -/
structure Calculator where
  entry : String
  expression : Expression
  pending : Option Operator
  display : Display
deriving DecidableEq

namespace Calculator

/-- A calculator that was just switched on. -/
def fresh : Calculator := ⟨"", Expression.empty, none, Display.blank⟩

/-! ## The number being typed -/

/-- The number that the entry spells, if it spells one. -/
def number? (c : Calculator) : Option Binary64 := Binary64.ofText? c.entry

/-- The calculator with another entry, which the upper line shows. -/
def withEntry (c : Calculator) (entry : String) : Calculator :=
  { c with entry := entry, display := c.display.showEntry entry }

/-- A character is added to the entry; any character is, a digit or not. -/
def type (c : Calculator) (ch : Char) : Calculator := c.withEntry (c.entry.push ch)

/-- The entry of an entry when the point is pressed: a point is added unless there is one, and an
empty entry becomes `0.`. -/
def pointed (entry : String) : String :=
  if entry = "" then "0." else if '.' ∈ entry.toList then entry else entry.push '.'

/-- The point is pressed. -/
def point (c : Calculator) : Calculator := c.withEntry (pointed c.entry)

/-- The last character of the entry is removed, if there is one. -/
def backspace (c : Calculator) : Calculator :=
  c.withEntry (String.ofList c.entry.toList.dropLast)

/-- The number being typed is replaced by a function of it; an entry that spells no number is left
alone. -/
def transform (c : Calculator) (t : Transform) : Calculator :=
  match c.number? with
  | some x => c.withEntry (t.apply x).text
  | none => c

/-! ## Committing -/

/-- The number being typed is moved to the end of the expression.  An entry that spells no number is
dropped, and the upper line falls blank with it. -/
def commit (c : Calculator) : Calculator :=
  match c.number? with
  | some x => { c with entry := "", expression := (c.expression.pushNumber? x).getD c.expression }
  | none => if c.entry = "" then c else c.withEntry ""

/-- An operator is pressed: the number being typed is committed, and the operator put at the end of
the expression, which the upper line shows.  With nothing before it the operator is ignored. -/
def operator (c : Calculator) (op : Operator) : Calculator :=
  match c.commit.expression.pushOperator? op with
  | some e =>
    { c.commit with
      expression := e, pending := some op, display := c.commit.display.showUpper e.text }
  | none => c.commit

/-! ## Results -/

/-- What the equals key would calculate: the value of the expression with the number being typed
committed and an operator left at its end dropped; none if there is nothing to calculate. -/
def outcome? (c : Calculator) : Option Outcome :=
  if c.commit.expression.isEmpty then none
  else some (evaluate c.commit.expression.trimmed.tokens)

/-- The equals key is pressed: the expression is used up, its result becomes the number being typed,
and both lines show it.  With nothing to calculate, only an entry that spells no number is dropped.
-/
def equals (c : Calculator) : Calculator :=
  match c.outcome? with
  | some o => ⟨o.entry, Expression.empty, none, ⟨o.line, o.line⟩⟩
  | none => c.commit

/-! ## Actions and keys -/

/-- What can be done to a calculator. -/
inductive Action where
  | type (ch : Char)
  | point
  | backspace
  | operator (op : Operator)
  | equals
  | clear
  | transform (t : Transform)
deriving DecidableEq

/-- An action is performed; clearing leaves nothing of what was before. -/
def perform (c : Calculator) : Action → Calculator
  | .type ch => c.type ch
  | .point => c.point
  | .backspace => c.backspace
  | .operator op => c.operator op
  | .equals => c.equals
  | .clear => fresh
  | .transform t => c.transform t

/-- Actions are performed one after the other. -/
def run (c : Calculator) (actions : List Action) : Calculator := actions.foldl perform c

@[simp] theorem run_nil (c : Calculator) : c.run [] = c := rfl

@[simp] theorem run_cons (c : Calculator) (a : Action) (actions : List Action) :
    c.run (a :: actions) = (c.perform a).run actions := rfl

theorem run_append (c : Calculator) (before after : List Action) :
    c.run (before ++ after) = (c.run before).run after := List.foldl_append

end Calculator

/-- What pressing a key does. -/
def Key.action : Key → Calculator.Action
  | .digit d => .type d.char
  | .operator op => .operator op
  | .equals => .equals
  | .point => .point
  | .backspace => .backspace
  | .clear => .clear
  | .transform t => .transform t

/-- Keys are pressed one after the other. -/
def Calculator.press (c : Calculator) (keys : List Key) : Calculator := c.run (keys.map Key.action)

theorem Calculator.press_append (c : Calculator) (before after : List Key) :
    c.press (before ++ after) = (c.press before).press after := by
  rw [press, List.map_append, run_append]
  rfl

end Keypad
