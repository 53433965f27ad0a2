import Keypad.Expression.Token

/-!
# Expression/Basic — the expression that a calculator collects

An expression grows at its end by one token at a time.  A number is refused directly after a number
and an operator before any number; an operator after an operator replaces it.  A push that is
refused has no result, so that the expression before it stands.
-/

namespace Keypad

/-- The tokens of an expression, in the order of entry. -/
structure Expression where
  tokens : List Token
deriving DecidableEq

namespace Expression

/-- The expression without tokens. -/
def empty : Expression := ⟨[]⟩

/-- Whether there is no token. -/
def isEmpty (e : Expression) : Bool := e.tokens.isEmpty

/-- The expression with a number at its end; none directly after a number. -/
def pushNumber? (e : Expression) (value : Binary64) : Option Expression :=
  match e.tokens.getLast? with
  | some (.number _) => none
  | _ => some ⟨e.tokens ++ [.number value]⟩

/-- The operator at the end of the expression, if there is one. -/
def trailingOperator? (e : Expression) : Option Operator :=
  match e.tokens.getLast? with
  | some (.operator op) => some op
  | _ => none

/-- The expression without an operator at its end. -/
def trimmed (e : Expression) : Expression :=
  match e.trailingOperator? with
  | some _ => ⟨e.tokens.dropLast⟩
  | none => e

/-- The expression with an operator at its end, in place of one that stands there already; none for
the empty expression. -/
def pushOperator? (e : Expression) (op : Operator) : Option Expression :=
  if e.isEmpty then none else some ⟨e.trimmed.tokens ++ [.operator op]⟩

/-- The tokens as the display shows them, divided by single spaces. -/
def text (e : Expression) : String := String.intercalate " " (e.tokens.map Token.text)

/-! ## Pushes at a known end -/

@[simp] theorem pushNumber?_empty (value : Binary64) :
    empty.pushNumber? value = some ⟨[.number value]⟩ := rfl

@[simp] theorem pushNumber?_number (ts : List Token) (x value : Binary64) :
    pushNumber? ⟨ts ++ [.number x]⟩ value = none := by
  simp [pushNumber?]

@[simp] theorem pushNumber?_operator (ts : List Token) (op : Operator) (value : Binary64) :
    pushNumber? ⟨ts ++ [.operator op]⟩ value = some ⟨ts ++ [.operator op] ++ [.number value]⟩ := by
  simp [pushNumber?]

@[simp] theorem pushOperator?_empty (op : Operator) : empty.pushOperator? op = none := rfl

@[simp] theorem pushOperator?_number (ts : List Token) (x : Binary64) (op : Operator) :
    pushOperator? ⟨ts ++ [.number x]⟩ op = some ⟨ts ++ [.number x] ++ [.operator op]⟩ := by
  simp [pushOperator?, trimmed, trailingOperator?, isEmpty]

@[simp] theorem pushOperator?_operator (ts : List Token) (old op : Operator) :
    pushOperator? ⟨ts ++ [.operator old]⟩ op = some ⟨ts ++ [.operator op]⟩ := by
  simp [pushOperator?, trimmed, trailingOperator?, isEmpty]

end Expression

end Keypad
