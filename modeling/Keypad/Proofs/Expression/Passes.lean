import Keypad.Proofs.Expression.Precedence

/-!
# Proofs/Expression/Passes — evaluation by two passes over the tokens

A chain can also be worked out on its tokens, with a stack: `Passes.multiplyOut` moves tokens to an
output and puts every product or quotient in place of its left operand there; `Passes.sumUp?` adds
up what is left.  Neither pass knows that the tokens alternate.  The first fails where an operand is
missing, the second has no value for anything but a row of sums and differences.

Over the tokens of a chain neither happens.  What carries this is the top of the output, which is
the number that `Chain.productsFrom` has reached (`multiplyOut_restTokens`): the first pass gives
the tokens of the chain that `Chain.products` gives, and only `+` and `-` are left in it.
-/

namespace Keypad

namespace Passes

/-! ## The two passes -/

/-- The first pass: tokens go to the output, whose last token comes first, and a product or quotient
takes the place of its left operand there.  A missing operand breaks the alternation at its place;
for the left one that is the place of the operator. -/
def multiplyOut (output : List Token) (position : Nat) :
    List Token → Except EvaluationFault (List Token)
  | [] => .ok output.reverse
  | .number x :: ts => multiplyOut (.number x :: output) (position + 1) ts
  | .operator op :: ts =>
    if op.isProduct then
      match output, ts with
      | .number x :: below, .number y :: ts =>
        if op = .divide ∧ y.isZero then .error (.divisionByZero position)
        else multiplyOut (.number (op.apply x y) :: below) (position + 2) ts
      | .number _ :: _, _ => .error (.malformed (position + 1))
      | _, _ => .error (.malformed position)
    else multiplyOut (.operator op :: output) (position + 1) ts

/-- The sum from a value on; none if the tokens are no operators `+` and `-`, each with a number to
its right. -/
def sumFrom? (value : Binary64) : List Token → Option Binary64
  | [] => some value
  | .operator op :: .number y :: ts =>
    if op.isProduct then none else sumFrom? (op.apply value y) ts
  | _ => none

/-- The second pass: the sum of a row of numbers with `+` and `-` between them, none for any other
tokens. -/
def sumUp? : List Token → Option Binary64
  | .number x :: ts => sumFrom? x ts
  | _ => none

end Passes

namespace Chain

open Passes

/-! ## The first pass over a chain -/

/-- A sum or difference goes to the output with its right operand. -/
theorem multiplyOut_sum {op : Operator} (h : op.isProduct = false) (output : List Token)
    (position : Nat) (y : Binary64) (ts : List Token) :
    multiplyOut output position (.operator op :: .number y :: ts)
      = multiplyOut (.number y :: .operator op :: output) (position + 2) ts := by
  conv => lhs; unfold multiplyOut
  rw [if_neg (Bool.eq_false_iff.1 h), multiplyOut]

/-- A product or quotient takes the place of the number on top of the output. -/
theorem multiplyOut_product {op : Operator} (h : op.isProduct = true) (x y : Binary64)
    (below : List Token) (position : Nat) (ts : List Token) :
    multiplyOut (.number x :: below) position (.operator op :: .number y :: ts)
      = if op = .divide ∧ y.isZero then .error (.divisionByZero position)
        else multiplyOut (.number (op.apply x y) :: below) (position + 2) ts := by
  rw [multiplyOut, if_pos h]

/-- **With a number on top of the output, the first pass follows the chain.**  What lies below stays
there, and the chain of sums and differences that begins with that number comes to lie upon it; from
there the pass goes on with the tokens ahead. -/
theorem multiplyOut_restTokens (v : Binary64) (below : List Token) (position : Nat)
    (rest : List (Operator × Binary64)) (ahead : List Token) :
    multiplyOut (.number v :: below) position (restTokens rest ++ ahead)
      = (productsFrom v position rest).bind fun c =>
          multiplyOut (c.tokens.reverse ++ below) (position + (restTokens rest).length) ahead := by
  induction rest generalizing v below position with
  | nil => rfl
  | cons p rest ih =>
    obtain ⟨op, y⟩ := p
    have hposition : position + (restTokens ((op, y) :: rest)).length
        = position + 2 + (restTokens rest).length := by
      rw [restTokens_cons, List.length_cons, List.length_cons]
      omega
    rw [hposition, restTokens_cons, List.cons_append, List.cons_append, productsFrom]
    cases hop : op.isProduct with
    | true =>
      rw [multiplyOut_product hop, ih, if_pos rfl]
      split <;> rfl
    | false =>
      have hdivide : ¬ (op = .divide ∧ y.isZero = true) := by
        rintro ⟨rfl, -⟩
        cases hop
      rw [multiplyOut_sum hop, ih, if_neg hdivide, if_neg Bool.false_ne_true]
      cases productsFrom y (position + 2) rest with
      | error e => rfl
      | ok c => simp [Except.map, Except.bind, tokens, restTokens]

/-- **The first pass at every stage.**  When it has passed the tokens of a chain, whatever lies
ahead, its output is the tokens of the sums and differences of that chain. -/
theorem multiplyOut_tokens_append (c : Chain) (ahead : List Token) :
    multiplyOut [] 0 (c.tokens ++ ahead)
      = c.products.bind fun d => multiplyOut d.tokens.reverse c.tokens.length ahead := by
  have hlength : c.tokens.length = 0 + 1 + (restTokens c.rest).length := Nat.add_comm _ _
  rw [hlength, tokens, List.cons_append, multiplyOut, multiplyOut_restTokens, products]
  simp only [List.append_nil]

/-- **The first pass over the tokens of a chain gives the tokens of its sums and differences.** -/
theorem multiplyOut_tokens (c : Chain) :
    multiplyOut [] 0 c.tokens = c.products.map tokens := by
  rw [← List.append_nil c.tokens, multiplyOut_tokens_append]
  cases c.products with
  | error e => rfl
  | ok d => exact congrArg Except.ok d.tokens.reverse_reverse

/-! ## The second pass over a chain -/

theorem sumFrom?_restTokens {rest : List (Operator × Binary64)}
    (h : ∀ p ∈ rest, p.1.isProduct = false) (v : Binary64) :
    sumFrom? v (restTokens rest) = some (rest.foldl (fun v p => p.1.apply v p.2) v) := by
  induction rest generalizing v with
  | nil => rfl
  | cons p rest ih =>
    obtain ⟨hp, hrest⟩ := List.forall_mem_cons.1 h
    rw [restTokens_cons, sumFrom?, hp]
    exact ih hrest _

/-- **The second pass adds up a chain of sums and differences.** -/
theorem sumUp?_tokens {c : Chain} (h : ∀ p ∈ c.rest, p.1.isProduct = false) :
    sumUp? c.tokens = some c.total :=
  sumFrom?_restTokens h c.first

/-- **The two passes over the tokens of a chain evaluate it.**  The first finds all its operands: it
divides by zero, or leaves tokens that the second can add up. -/
theorem evaluate_tokens_passes (c : Chain) :
    (∃ i, multiplyOut [] 0 c.tokens = .error (.divisionByZero i) ∧
        Keypad.evaluate c.tokens = .error (.divisionByZero i)) ∨
      ∃ ts v, multiplyOut [] 0 c.tokens = .ok ts ∧ sumUp? ts = some v ∧
        Keypad.evaluate c.tokens = .ok v := by
  rw [multiplyOut_tokens, evaluate_tokens, Chain.evaluate]
  rcases c.products_cases with ⟨-, hproducts⟩ | ⟨i, -, hproducts⟩
  · let d := (TermSum.read c.first c.rest).values
    have hsums : ∀ p ∈ d.rest, p.1.isProduct = false :=
      List.forall_mem_map.2 (TermSum.read c.first c.rest).isProduct_of_mem
    rw [hproducts]
    exact Or.inr ⟨d.tokens, d.total, rfl, sumUp?_tokens hsums, rfl⟩
  · rw [hproducts]
    exact Or.inl ⟨i, rfl, rfl⟩

end Chain

end Keypad
