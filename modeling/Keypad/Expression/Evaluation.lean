import Keypad.Expression.Chain

/-!
# Expression/Evaluation — the value of a list of tokens

The products and quotients of a chain are worked out first, from left to right, which leaves a chain
of sums and differences; those are then worked out from left to right.  Division by a zero of either
sign is a fault of the expression, although binary64 would give a result.
-/

namespace Keypad

/-- Why a list of tokens has no value, with the position of the token at fault. -/
inductive EvaluationFault where
  /-- The operator at the position divides by zero. -/
  | divisionByZero (position : Nat)
  /-- The token at the position breaks the alternation of numbers and operators. -/
  | malformed (position : Nat)
deriving DecidableEq

namespace EvaluationFault

/-- The position of the token at fault. -/
def position : EvaluationFault → Nat
  | divisionByZero position => position
  | malformed position => position

/-- The fault in words. -/
def message : EvaluationFault → String
  | divisionByZero position => s!"Division by zero at token {position}."
  | malformed position => s!"Malformed expression at token {position}."

end EvaluationFault

/-- What an evaluation gives: a number or a fault. -/
abbrev Outcome := Except EvaluationFault Binary64

namespace Chain

/-- The chain left when the products and quotients are worked out from left to right, beginning with
the value of the product so far; `position` is that of the next operator. -/
def productsFrom (value : Binary64) (position : Nat) :
    List (Operator × Binary64) → Except EvaluationFault Chain
  | [] => .ok ⟨value, []⟩
  | (op, y) :: rest =>
    if op = .divide ∧ y.isZero then .error (.divisionByZero position)
    else if op.isProduct then productsFrom (op.apply value y) (position + 2) rest
    else (productsFrom y (position + 2) rest).map fun c => ⟨value, (op, c.first) :: c.rest⟩

/-- The chain of sums and differences that is left when products and quotients are worked out. -/
def products (c : Chain) : Except EvaluationFault Chain := productsFrom c.first 1 c.rest

/-- The value of a chain with its operators taken from left to right. -/
def total (c : Chain) : Binary64 := c.rest.foldl (fun value p => p.1.apply value p.2) c.first

/-- The value of a chain. -/
def evaluate (c : Chain) : Outcome := c.products.map total

end Chain

/-- **The value of a list of tokens**; a list that is no chain is malformed, whatever it divides
by. -/
def evaluate (tokens : List Token) : Outcome :=
  match Chain.ofTokens tokens with
  | .error position => .error (.malformed position)
  | .ok chain => chain.evaluate

@[simp] theorem evaluate_tokens (c : Chain) : evaluate c.tokens = c.evaluate := by
  rw [evaluate, Chain.ofTokens_tokens]

end Keypad
