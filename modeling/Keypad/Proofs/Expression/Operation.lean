import Keypad.Expression.Evaluation
import Keypad.Proofs.Binary64.Operations

/-!
# Proofs/Expression/Operation — one operator between two finite numbers

An operator stands for an operation on exact numbers too (`Operator.exact`).  Between two finite
numbers it gives what that operation gives, rounded once to nearest, ties to even
(`Operator.isRounded_apply`); a calculation of one operator does nothing else, so its outcome is the
correctly rounded result and no other number (`evaluate_operation`).
-/

namespace Keypad

open Binary64

namespace Operator

/-- The operation of an operator on exact numbers. -/
def exact : Operator → ℚ → ℚ → ℚ
  | add, q, r => q + r
  | subtract, q, r => q - r
  | multiply, q, r => q * r
  | divide, q, r => q / r

/-- The sign of a result that is a zero, by the signs of the two numbers.  A zero is the negative
one in sums and differences only if negative zeros alone are added up, and in products and quotients
if the signs differ. -/
def zeroSign : Operator → Bool → Bool → Bool
  | add, s, t => s && t
  | subtract, s, t => s && !t
  | multiply, s, t => s ^^ t
  | divide, s, t => s ^^ t

/-- **An operator gives the exact result, rounded.** -/
theorem isRounded_apply (op : Operator) (s t : Bool) (a b : Magnitude)
    (h : op = divide → b ≠ Magnitude.zero) :
    IsRounded (op.exact (signedValue s a) (signedValue t b)) (op.zeroSign s t)
      (op.apply (finite s a) (finite t b)) := by
  cases op with
  | add => exact isRounded_add s t a b
  | subtract => exact isRounded_sub s t a b
  | multiply => exact isRounded_mul s t a b
  | divide => exact isRounded_div s t a (h rfl)

end Operator

/-- A calculation of one operator applies it, unless it divides by a zero. -/
theorem evaluate_one_operator {op : Operator} {x y : Binary64}
    (h : op = .divide → y.isZero = false) :
    evaluate [.number x, .operator op, .number y] = .ok (op.apply x y) := by
  have hchain : [.number x, .operator op, .number y] = Chain.tokens ⟨x, [(op, y)]⟩ := rfl
  have hdivisor : ¬ (op = .divide ∧ y.isZero = true) := fun hzero =>
    Bool.false_ne_true ((h hzero.1).symm.trans hzero.2)
  rw [hchain, evaluate_tokens, Chain.evaluate, Chain.products, Chain.productsFrom, if_neg hdivisor]
  split
  · rfl
  · rfl

/-- **One operator between two finite numbers is calculated as correctly as can be.**  Unless the
second number is a zero to divide by, there is an outcome, and it is the one number that is the
exact result rounded: to nearest, ties to even, among all finite numbers down to the least ones; to
an infinity of its sign just if it would be rounded to `2 ^ 1024` or beyond; and a result that is a
zero has the sign that signed zeros ask for. -/
theorem evaluate_operation (op : Operator) (s t : Bool) (a b : Magnitude)
    (h : op = .divide → b ≠ Magnitude.zero) :
    ∃ x, evaluate [.number (finite s a), .operator op, .number (finite t b)] = .ok x ∧
      ∀ y, IsRounded (op.exact (signedValue s a) (signedValue t b)) (op.zeroSign s t) y ↔
        y = x := by
  have hrounded := op.isRounded_apply s t a b h
  refine ⟨op.apply (finite s a) (finite t b), ?_, fun y => ⟨fun hy => hy.eq hrounded, ?_⟩⟩
  · exact evaluate_one_operator fun hop => decide_eq_false (h hop)
  · rintro rfl
    exact hrounded

/-- Half of three units lies half way between one unit and two; the even two are taken. -/
theorem evaluate_operation_three_units_half :
    (Operator.divide = .divide → (⟨0x4000000000000000, by decide⟩ : Magnitude) ≠ Magnitude.zero) ∧
      evaluate [.number (finite true ⟨3, by decide⟩), .operator .divide,
        .number (finite false ⟨0x4000000000000000, by decide⟩)]
          = .ok (finite true ⟨2, by decide⟩) ∧
      IsRounded (signedValue true ⟨3, by decide⟩ / signedValue false ⟨0x4000000000000000, by decide⟩)
        true (finite true ⟨2, by decide⟩) := by
  have hne : (⟨0x4000000000000000, by decide⟩ : Magnitude) ≠ Magnitude.zero := by decide
  obtain ⟨x, hx, hround⟩ := evaluate_operation .divide true false ⟨3, by decide⟩
    ⟨0x4000000000000000, by decide⟩ fun _ => hne
  have heval : evaluate [.number (finite true ⟨3, by decide⟩), .operator .divide,
      .number (finite false ⟨0x4000000000000000, by decide⟩)]
        = .ok (finite true ⟨2, by decide⟩) := by decide +kernel
  obtain rfl := Except.ok.inj (hx.symm.trans heval)
  exact ⟨fun _ => hne, heval, (hround _).2 rfl⟩

end Keypad
