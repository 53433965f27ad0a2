import Keypad.Expression.Token

/-!
# Expression/Chain — alternating numbers and operators

A chain is what a well-formed list of tokens spells: a first number, then operators each with the
number to its right.  `Chain.ofTokens` reads a list of tokens as a chain, or finds the first token
that breaks the alternation; `ofTokens_eq_ok_iff` says that it accepts the tokens of chains only.
-/

namespace Keypad

/-- A number followed by operators with their right operands. -/
structure Chain where
  first : Binary64
  rest : List (Operator × Binary64)
deriving DecidableEq

namespace Chain

/-- The tokens of operators with their right operands. -/
def restTokens (rest : List (Operator × Binary64)) : List Token :=
  rest.flatMap fun p => [.operator p.1, .number p.2]

/-- The tokens of a chain. -/
def tokens (c : Chain) : List Token := .number c.first :: restTokens c.rest

/-- The operators with their right operands that a list of tokens spells, or the position of the
first token that breaks the alternation.  An operator without right operand is the last token, and
breaks it. -/
def restOfTokens (position : Nat) : List Token → Except Nat (List (Operator × Binary64))
  | [] => .ok []
  | .operator op :: .number y :: ts => (restOfTokens (position + 2) ts).map ((op, y) :: ·)
  | .operator _ :: .operator _ :: _ => .error (position + 1)
  | [.operator _] => .error position
  | .number _ :: _ => .error position

/-- The chain that a list of tokens spells, or the position of the first token that breaks the
alternation; the empty list breaks it at position zero. -/
def ofTokens : List Token → Except Nat Chain
  | .number x :: ts => (restOfTokens 1 ts).map (Chain.mk x)
  | _ => .error 0

theorem restTokens_cons (op : Operator) (y : Binary64) (rest : List (Operator × Binary64)) :
    restTokens ((op, y) :: rest) = .operator op :: .number y :: restTokens rest := rfl

theorem restOfTokens_restTokens (position : Nat) (rest : List (Operator × Binary64)) :
    restOfTokens position (restTokens rest) = .ok rest := by
  induction rest generalizing position with
  | nil => rfl
  | cons p rest ih =>
    obtain ⟨op, y⟩ := p
    rw [restTokens_cons, restOfTokens, ih]
    rfl

/-- **The tokens of a chain are read as that chain.** -/
theorem ofTokens_tokens (c : Chain) : ofTokens c.tokens = .ok c := by
  rw [tokens, ofTokens, restOfTokens_restTokens]
  rfl

theorem restTokens_of_restOfTokens {position : Nat} {ts : List Token}
    {rest : List (Operator × Binary64)} (h : restOfTokens position ts = .ok rest) :
    restTokens rest = ts := by
  fun_induction restOfTokens position ts generalizing rest with
  | case1 => obtain rfl := Except.ok.inj h; rfl
  | case2 position op y ts ih =>
    cases hr : restOfTokens (position + 2) ts with
    | error p => rw [hr] at h; cases h
    | ok more =>
      rw [hr] at h
      obtain rfl := Except.ok.inj h
      rw [restTokens_cons, ih hr]
  | case3 => cases h
  | case4 => cases h
  | case5 => cases h

/-- **Only the tokens of a chain are read as one.** -/
theorem ofTokens_eq_ok_iff {ts : List Token} {c : Chain} :
    ofTokens ts = .ok c ↔ c.tokens = ts := by
  refine ⟨fun h => ?_, fun h => h ▸ ofTokens_tokens c⟩
  unfold ofTokens at h
  split at h
  · rename_i x ts
    cases hr : restOfTokens 1 ts with
    | error p => rw [hr] at h; cases h
    | ok rest =>
      rw [hr] at h
      obtain rfl := Except.ok.inj h
      exact congrArg (Token.number x :: ·) (restTokens_of_restOfTokens hr)
  · cases h

end Chain

end Keypad
