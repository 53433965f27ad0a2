import Keypad.Proofs.Expression.Passes

/-!
# Proofs/Expression/Terms — the first pass leaves one number for each term

The operators `+` and `-` cut the tokens of a chain into groups of numbers joined by `*` and `/`.
These groups are the terms of the sum that the chain reads as (`TermSum.splitOnP_tokens`).  The
first pass keeps the operators at the cuts and puts the value of each group in its place, so that
its output is a chain again, unless a group divides by zero (`Chain.multiplyOut_terms`).
-/

namespace Keypad

/-! ## The numbers and the operators among tokens -/

namespace Token

/-- The number that a token is, if it is one. -/
def number? : Token → Option Binary64
  | number value => some value
  | operator _ => none

/-- The operator that a token is, if it is one. -/
def operator? : Token → Option Operator
  | number _ => none
  | operator op => some op

/-- Whether a token is `+` or `-`. -/
def isSum : Token → Bool
  | number _ => false
  | operator op => !op.isProduct

end Token

namespace Chain

theorem filterMap_number?_restTokens (rest : List (Operator × Binary64)) :
    (restTokens rest).filterMap Token.number? = rest.map Prod.snd := by
  induction rest with
  | nil => rfl
  | cons p rest ih => exact congrArg (p.2 :: ·) ih

theorem filterMap_number?_tokens (c : Chain) :
    c.tokens.filterMap Token.number? = c.first :: c.rest.map Prod.snd :=
  congrArg (c.first :: ·) (filterMap_number?_restTokens c.rest)

theorem filterMap_operator?_tokens (c : Chain) :
    c.tokens.filterMap Token.operator? = c.rest.map Prod.fst := by
  rw [tokens]
  induction c.rest with
  | nil => rfl
  | cons p rest ih => exact congrArg (p.1 :: ·) ih

end Chain

/-! ## The groups between sums and differences -/

/-- No token of a term is `+` or `-`. -/
theorem Term.isSum_of_mem_tokens (t : Term) : ∀ a ∈ t.tokens, a.isSum = false := by
  intro a ha
  rcases List.mem_cons.1 ha with rfl | ha
  · rfl
  · obtain ⟨p, hp, ha⟩ := List.mem_flatMap.1 ha
    rcases List.mem_cons.1 ha with rfl | ha
    · rw [Token.isSum, t.isProduct_of_mem p hp, Bool.not_true]
    · rw [List.mem_singleton.1 ha, Token.isSum]

namespace TermSum

/-- The terms of a sum, in their order. -/
def terms (s : TermSum) : List Term := s.first :: s.rest.map Prod.snd

theorem splitOnP_append_restTokens (t : Term) {rest : List (Operator × Term)}
    (h : ∀ p ∈ rest, p.1.isProduct = false) :
    (t.tokens ++ restTokens rest).splitOnP Token.isSum
      = t.tokens :: rest.map fun p => p.2.tokens := by
  induction rest generalizing t with
  | nil =>
    rw [show restTokens [] = [] from rfl, List.append_nil]
    exact List.splitOnP_eq_singleton t.isSum_of_mem_tokens
  | cons p rest ih =>
    obtain ⟨hp, hrest⟩ := List.forall_mem_cons.1 h
    have hcut : (Token.operator p.1).isSum = true := by rw [Token.isSum, hp, Bool.not_false]
    rw [restTokens_cons, List.splitOnP_append_cons_of_forall_mem t.isSum_of_mem_tokens _ hcut,
      ih p.2 hrest, List.map_cons]

/-- **Cut at every `+` and `-`, a sum of terms falls into its terms.** -/
theorem splitOnP_tokens (s : TermSum) :
    s.tokens.splitOnP Token.isSum = s.terms.map Term.tokens := by
  rw [tokens, splitOnP_append_restTokens s.first s.isProduct_of_mem, terms, List.map_cons,
    List.map_map]
  rfl

/-- Between the terms of a chain stand its operators `+` and `-`, in their order. -/
theorem map_fst_rest_read (x : Binary64) (rest : List (Operator × Binary64)) :
    (read x rest).rest.map Prod.fst = (rest.map Prod.fst).filter fun op => !op.isProduct := by
  induction rest generalizing x with
  | nil => rfl
  | cons p rest ih =>
    obtain ⟨op, y⟩ := p
    rcases hop : op.isProduct with _ | _
    · rw [rest_read_sum x y hop, List.map_cons, List.map_cons, ih, List.filter_cons_of_pos]
      rw [hop, Bool.not_false]
    · rw [rest_read_product x y hop, List.map_cons, ih, List.filter_cons_of_neg]
      rw [hop]
      exact Bool.false_ne_true

/-- The operators of the values of a sum are those between its terms. -/
theorem filterMap_operator?_tokens_values (s : TermSum) :
    s.values.tokens.filterMap Token.operator? = s.rest.map Prod.fst := by
  rw [Chain.filterMap_operator?_tokens, values, List.map_map]
  rfl

/-- The numbers of the values of a sum are the values of its terms. -/
theorem filterMap_number?_tokens_values (s : TermSum) :
    s.values.tokens.filterMap Token.number? = s.terms.map Term.value := by
  rw [Chain.filterMap_number?_tokens, values, terms, List.map_map, List.map_cons, List.map_map]
  rfl

end TermSum

/-! ## The output of the first pass -/

namespace Chain

open Passes

/-- **The first pass.**  Over the tokens of a chain it stops at the first division by zero, if there
is one.  Otherwise it gives the tokens of another chain.  The operators of that one are the `+` and
`-` of the first, in their order; its numbers are the values, each taken from left to right, of the
terms into which these cut the first.  It is what the chain itself is worked out to. -/
theorem multiplyOut_terms (c : Chain) :
    (∃ i, FirstDividesByZeroAt c.tokens i ∧
        multiplyOut [] 0 c.tokens = .error (.divisionByZero i) ∧
        c.products = .error (.divisionByZero i)) ∨
      (∀ i, ¬ DividesByZeroAt c.tokens i) ∧ ∃ (d : Chain) (terms : List Term),
        multiplyOut [] 0 c.tokens = .ok d.tokens ∧ c.products = .ok d ∧
        d.tokens.filterMap Token.operator?
          = (c.tokens.filterMap Token.operator?).filter (fun op => !op.isProduct) ∧
        c.tokens.splitOnP Token.isSum = terms.map Term.tokens ∧
        d.tokens.filterMap Token.number? = terms.map Term.value := by
  rw [multiplyOut_tokens]
  rcases c.products_cases with ⟨hnone, hproducts⟩ | ⟨i, hi, hproducts⟩
  · let s := TermSum.read c.first c.rest
    have htokens : s.tokens = c.tokens := TermSum.tokens_read c.first c.rest
    refine Or.inr ⟨hnone, s.values, s.terms, ?_, hproducts, ?_, ?_,
      s.filterMap_number?_tokens_values⟩
    · rw [hproducts]
      rfl
    · rw [s.filterMap_operator?_tokens_values, c.filterMap_operator?_tokens]
      exact TermSum.map_fst_rest_read c.first c.rest
    · rw [← htokens]
      exact s.splitOnP_tokens
  · refine Or.inl ⟨i, hi, ?_, hproducts⟩
    rw [hproducts]
    rfl

example (w x y z : Binary64) :
    multiplyOut [] 0 [.number w, .operator .add, .number x, .operator .multiply, .number y,
      .operator .subtract, .number z]
      = .ok [.number w, .operator .add, .number (x * y), .operator .subtract, .number z] := rfl

end Chain

end Keypad
