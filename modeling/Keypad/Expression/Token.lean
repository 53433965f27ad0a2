import Keypad.Binary64.Arithmetic
import Keypad.Binary64.Text

/-!
# Expression/Token — operators, and the tokens of an expression

An operator is written as one symbol (`ofSymbol?_eq_some_iff`) and stands for one operation of
binary64.  A token is a number or an operator.
-/

namespace Keypad

/-- One of the four operators. -/
inductive Operator where
  | add
  | subtract
  | multiply
  | divide
deriving DecidableEq

namespace Operator

/-- The symbol of an operator. -/
def symbol : Operator → String
  | add => "+"
  | subtract => "-"
  | multiply => "*"
  | divide => "/"

/-- The four operators. -/
def all : List Operator := [add, subtract, multiply, divide]

theorem mem_all (op : Operator) : op ∈ all := by cases op <;> decide

/-- The operator of a symbol. -/
def ofSymbol? (s : String) : Option Operator := all.find? fun op => op.symbol = s

@[simp] theorem ofSymbol?_symbol (op : Operator) : ofSymbol? op.symbol = some op := by
  cases op <;> decide +kernel

/-- **A symbol names one operator, and nothing else names it.** -/
theorem ofSymbol?_eq_some_iff {s : String} {op : Operator} :
    ofSymbol? s = some op ↔ op.symbol = s :=
  ⟨fun h => by simpa using List.find?_some h, fun h => h ▸ ofSymbol?_symbol op⟩

/-- Whether the operator binds tighter than sums and differences do. -/
def isProduct : Operator → Bool
  | add | subtract => false
  | multiply | divide => true

/-- The operation of an operator. -/
def apply : Operator → Binary64 → Binary64 → Binary64
  | add, x, y => x + y
  | subtract, x, y => x - y
  | multiply, x, y => x * y
  | divide, x, y => x / y

end Operator

/-- A number or an operator of an expression. -/
inductive Token where
  | number (value : Binary64)
  | operator (op : Operator)
deriving DecidableEq

/-- A token as the display shows it. -/
def Token.text : Token → String
  | number value => value.text
  | operator op => op.symbol

end Keypad
