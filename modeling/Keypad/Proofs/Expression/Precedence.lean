import Keypad.Expression.Evaluation

/-!
# Proofs/Expression/Precedence — the two passes give the value of a sum of terms

A chain reads in exactly one way as **terms** parted by `+` and `-`, each term being numbers parted
by `*` and `/` (`TermSum.tokens_eq_iff`).  Read so, it has a value that refers to no pass: every
term folded from the left, and then the terms.  `evaluate` finds that value, unless some `/` stands
before a zero; then it reports the first one that does.
-/

namespace Keypad

/-! ## Sums of terms

Operators bind as their constructor says: a `Term` holds only operators that bind tightly, a
`TermSum` only the others, so neither can be read in a second way. -/

/-- A number with the numbers it is multiplied and divided by. -/
@[ext] structure Term where
  first : Binary64
  factors : List (Operator × Binary64)
  isProduct_of_mem : ∀ p ∈ factors, p.1.isProduct = true

/-- A term with the terms that are added to it and subtracted from it. -/
@[ext] structure TermSum where
  first : Term
  rest : List (Operator × Term)
  isProduct_of_mem : ∀ p ∈ rest, p.1.isProduct = false

namespace Term

/-- The tokens of a term. -/
def tokens (t : Term) : List Token := .number t.first :: Chain.restTokens t.factors

/-- The value of a term: its products and quotients from left to right. -/
def value (t : Term) : Binary64 := t.factors.foldl (fun v p => p.1.apply v p.2) t.first

/-- The term that is one number. -/
def single (x : Binary64) : Term := ⟨x, [], by simp⟩

/-- The number `x` with the operator `op` put before a term. -/
def cons (x : Binary64) (op : Operator) (h : op.isProduct = true) (t : Term) : Term :=
  ⟨x, (op, t.first) :: t.factors, by
    intro p hp
    rcases List.mem_cons.1 hp with rfl | hp
    · exact h
    · exact t.isProduct_of_mem p hp⟩

end Term

namespace TermSum

/-- The tokens of operators with the terms to their right. -/
def restTokens (rest : List (Operator × Term)) : List Token :=
  rest.flatMap fun p => .operator p.1 :: p.2.tokens

/-- The tokens of a sum of terms. -/
def tokens (s : TermSum) : List Token := s.first.tokens ++ restTokens s.rest

/-- The value of a sum of terms: its sums and differences from left to right, beginning with the
value of the first term. -/
def value (s : TermSum) : Binary64 :=
  s.rest.foldl (fun v p => p.1.apply v p.2.value) s.first.value

/-- The chain of sums and differences that has the value of every term in its place. -/
def values (s : TermSum) : Chain := ⟨s.first.value, s.rest.map fun p => (p.1, p.2.value)⟩

/-- The values of the terms, added up, are the value of their sum. -/
theorem total_values (s : TermSum) : s.values.total = s.value := List.foldl_map

/-- The sum of terms that a number and the operators and numbers after it read as: an operator that
binds tightly joins the number to the term after it, any other begins a term there. -/
def read (x : Binary64) : List (Operator × Binary64) → TermSum
  | [] => ⟨.single x, [], by simp⟩
  | (op, y) :: rest =>
    if h : op.isProduct = true then
      ⟨.cons x op h (read y rest).first, (read y rest).rest, (read y rest).isProduct_of_mem⟩
    else
      ⟨.single x, (op, (read y rest).first) :: (read y rest).rest, by
        intro p hp
        rcases List.mem_cons.1 hp with rfl | hp
        · exact Bool.eq_false_iff.2 h
        · exact (read y rest).isProduct_of_mem p hp⟩

theorem first_read_product (x y : Binary64) {op : Operator} (h : op.isProduct = true)
    (rest : List (Operator × Binary64)) :
    (read x ((op, y) :: rest)).first = .cons x op h (read y rest).first := by
  rw [read, dif_pos h]

theorem rest_read_product (x y : Binary64) {op : Operator} (h : op.isProduct = true)
    (rest : List (Operator × Binary64)) :
    (read x ((op, y) :: rest)).rest = (read y rest).rest := by
  rw [read, dif_pos h]

theorem first_read_sum (x y : Binary64) {op : Operator} (h : op.isProduct = false)
    (rest : List (Operator × Binary64)) :
    (read x ((op, y) :: rest)).first = .single x := by
  rw [read, dif_neg (by simp [h])]

theorem rest_read_sum (x y : Binary64) {op : Operator} (h : op.isProduct = false)
    (rest : List (Operator × Binary64)) :
    (read x ((op, y) :: rest)).rest = (op, (read y rest).first) :: (read y rest).rest := by
  rw [read, dif_neg (by simp [h])]

@[simp] theorem first_first_read (x : Binary64) (rest : List (Operator × Binary64)) :
    (read x rest).first.first = x := by
  rcases rest with _ | ⟨⟨op, y⟩, rest⟩
  · rfl
  · rcases h : op.isProduct with _ | _
    · rw [first_read_sum x y h]; rfl
    · rw [first_read_product x y h]; rfl

/-! ## Each chain is one sum of terms -/

theorem restTokens_cons (op : Operator) (t : Term) (more : List (Operator × Term)) :
    restTokens ((op, t) :: more) = .operator op :: (t.tokens ++ restTokens more) := rfl

/-- The tokens of a sum of terms whose first term is one number. -/
theorem tokens_of_factors_nil {s : TermSum} (h : s.first.factors = []) :
    s.tokens = .number s.first.first :: restTokens s.rest := by
  rw [tokens, Term.tokens, h]
  rfl

/-- The tokens of a sum of terms whose first term has more numbers than one. -/
theorem tokens_of_factors_cons {s : TermSum} {op : Operator} {t : Term}
    (h : s.first.factors = (op, t.first) :: t.factors) :
    s.tokens = .number s.first.first :: .operator op :: (t.tokens ++ restTokens s.rest) := by
  rw [tokens, Term.tokens, h]
  rfl

/-- Reading keeps the tokens. -/
theorem tokens_read (x : Binary64) (rest : List (Operator × Binary64)) :
    (read x rest).tokens = .number x :: Chain.restTokens rest := by
  induction rest generalizing x with
  | nil => rfl
  | cons p rest ih =>
    obtain ⟨op, y⟩ := p
    have hrest : Chain.restTokens ((op, y) :: rest) = .operator op :: (read y rest).tokens := by
      rw [ih y]
      rfl
    rcases h : op.isProduct with _ | _
    · rw [tokens_of_factors_nil (by rw [first_read_sum x y h]; rfl), first_first_read,
        rest_read_sum x y h, restTokens_cons, hrest, tokens]
    · rw [tokens_of_factors_cons (by rw [first_read_product x y h]; rfl), first_first_read,
        rest_read_product x y h, hrest, tokens]

/-- **A sum of terms is determined by its tokens**: it is what reading them gives. -/
theorem eq_read_of_tokens_eq {s : TermSum} {x : Binary64} {rest : List (Operator × Binary64)}
    (h : s.tokens = .number x :: Chain.restTokens rest) : s = read x rest := by
  induction rest generalizing s x with
  | nil =>
    obtain ⟨⟨z, factors, hf⟩, more, hm⟩ := s
    rcases factors with _ | ⟨p, factors⟩
    · rcases more with _ | ⟨p, more⟩
      · obtain rfl : z = x := Token.number.inj (List.cons.inj h).1
        rfl
      · cases h
    · cases h
  | cons q rest ih =>
    obtain ⟨op, y⟩ := q
    obtain ⟨⟨z, factors, hf⟩, more, hm⟩ := s
    rcases factors with _ | ⟨⟨op', y'⟩, factors⟩
    · rcases more with _ | ⟨⟨op', t⟩, more⟩
      · cases h
      · -- the first term is one number, and what follows it is a sum of terms of its own
        let s' : TermSum := ⟨t, more, fun p hp => hm p (List.mem_cons_of_mem _ hp)⟩
        have hop : op'.isProduct = false := hm _ List.mem_cons_self
        obtain ⟨rfl, rfl, hs'⟩ : z = x ∧ op' = op ∧
            s'.tokens = .number y :: Chain.restTokens rest := by
          simpa [tokens, Term.tokens, restTokens, Chain.restTokens, s'] using h
        ext1
        · exact (first_read_sum z y hop rest).symm
        · rw [rest_read_sum z y hop rest, ← ih hs']
    · -- the first term goes on, and without its first number is the first term of another sum
      let s' : TermSum :=
        ⟨⟨y', factors, fun p hp => hf p (List.mem_cons_of_mem _ hp)⟩, more, hm⟩
      have hop : op'.isProduct = true := hf _ List.mem_cons_self
      obtain ⟨rfl, rfl, hs'⟩ : z = x ∧ op' = op ∧
          s'.tokens = .number y :: Chain.restTokens rest := by
        simpa [tokens, Term.tokens, restTokens, Chain.restTokens, s'] using h
      ext1
      · rw [first_read_product z y hop rest, ← ih hs']
        rfl
      · rw [rest_read_product z y hop rest, ← ih hs']

/-- **Each chain reads as one sum of terms**, the one with its tokens. -/
theorem tokens_eq_iff {s : TermSum} {c : Chain} :
    s.tokens = c.tokens ↔ s = read c.first c.rest :=
  ⟨eq_read_of_tokens_eq, fun h => h ▸ tokens_read c.first c.rest⟩

end TermSum

/-! ## Division by zero -/

/-- A `/` with a zero directly after it stands at index `i` of a list of tokens. -/
def DividesByZeroAt (ts : List Token) (i : Nat) : Prop :=
  ts[i]? = some (.operator .divide) ∧ ∃ y, ts[i + 1]? = some (.number y) ∧ y.isZero = true

/-- The index `i` is the first at which a list of tokens divides by zero. -/
def FirstDividesByZeroAt (ts : List Token) (i : Nat) : Prop :=
  DividesByZeroAt ts i ∧ ∀ j < i, ¬ DividesByZeroAt ts j

theorem not_dividesByZeroAt_nil (i : Nat) : ¬ DividesByZeroAt [] i := by
  rintro ⟨h, -⟩
  simp at h

@[simp] theorem dividesByZeroAt_zero_iff {op : Operator} {y : Binary64} {ts : List Token} :
    DividesByZeroAt (.operator op :: .number y :: ts) 0 ↔ op = .divide ∧ y.isZero = true := by
  simp [DividesByZeroAt]

@[simp] theorem not_dividesByZeroAt_number {x : Binary64} {ts : List Token} :
    ¬ DividesByZeroAt (.number x :: ts) 0 := by
  simp [DividesByZeroAt]

@[simp] theorem dividesByZeroAt_succ_iff {t : Token} {ts : List Token} {i : Nat} :
    DividesByZeroAt (t :: ts) (i + 1) ↔ DividesByZeroAt ts i := by
  simp [DividesByZeroAt]

/-- A token that is no division by zero moves the first one on by one place. -/
theorem firstDividesByZeroAt_succ {t : Token} {ts : List Token} {i : Nat}
    (h : ¬ DividesByZeroAt (t :: ts) 0) (hi : FirstDividesByZeroAt ts i) :
    FirstDividesByZeroAt (t :: ts) (i + 1) := by
  refine ⟨dividesByZeroAt_succ_iff.2 hi.1, fun j hj => ?_⟩
  rcases j with _ | j
  · exact h
  · exact fun hd => hi.2 j (Nat.lt_of_succ_lt_succ hj) (dividesByZeroAt_succ_iff.1 hd)

/-! ## The two passes -/

namespace Chain

/-- Whether an operator with its right operand divides by zero. -/
def DividesByZero (p : Operator × Binary64) : Prop := p.1 = .divide ∧ p.2.isZero = true

theorem not_dividesByZeroAt_restTokens {rest : List (Operator × Binary64)}
    (h : ∀ p ∈ rest, ¬ DividesByZero p) (i : Nat) : ¬ DividesByZeroAt (restTokens rest) i := by
  induction rest generalizing i with
  | nil => exact not_dividesByZeroAt_nil i
  | cons p rest ih =>
    rcases i with _ | _ | i
    · exact fun hd => h p List.mem_cons_self (dividesByZeroAt_zero_iff.1 hd)
    · exact fun hd => not_dividesByZeroAt_number (dividesByZeroAt_succ_iff.1 hd)
    · exact fun hd => ih (fun q hq => h q (List.mem_cons_of_mem _ hq)) i
        (dividesByZeroAt_succ_iff.1 (dividesByZeroAt_succ_iff.1 hd))

/-- A division by zero ends the first pass. -/
theorem productsFrom_of_dividesByZero {op : Operator} {y : Binary64} (h : DividesByZero (op, y))
    (v : Binary64) (position : Nat) (rest : List (Operator × Binary64)) :
    productsFrom v position ((op, y) :: rest) = .error (.divisionByZero position) := by
  rw [productsFrom]
  exact if_pos h

/-- A product or quotient is worked out and goes on as the value so far. -/
theorem productsFrom_of_isProduct {op : Operator} {y : Binary64} (h : ¬ DividesByZero (op, y))
    (hop : op.isProduct = true) (v : Binary64) (position : Nat)
    (rest : List (Operator × Binary64)) :
    productsFrom v position ((op, y) :: rest)
      = productsFrom (op.apply v y) (position + 2) rest := by
  rw [productsFrom]
  exact (if_neg h).trans (if_pos hop)

/-- A sum or difference is kept, and its right operand begins the next term. -/
theorem productsFrom_of_not_isProduct {op : Operator} {y : Binary64}
    (h : ¬ DividesByZero (op, y)) (hop : op.isProduct = false) (v : Binary64) (position : Nat)
    (rest : List (Operator × Binary64)) :
    productsFrom v position ((op, y) :: rest)
      = (productsFrom y (position + 2) rest).map fun c => ⟨v, (op, c.first) :: c.rest⟩ := by
  rw [productsFrom]
  exact (if_neg h).trans (if_neg (Bool.eq_false_iff.1 hop))

/-- **The first pass where nothing is divided by zero**: the rest of the first term is multiplied
out from the value so far on, and all later terms are replaced by their values. -/
theorem productsFrom_eq_ok {rest : List (Operator × Binary64)}
    (h : ∀ p ∈ rest, ¬ DividesByZero p) (x v : Binary64) (position : Nat) :
    productsFrom v position rest = .ok
      ⟨(TermSum.read x rest).first.factors.foldl (fun v p => p.1.apply v p.2) v,
        (TermSum.read x rest).rest.map fun p => (p.1, p.2.value)⟩ := by
  induction rest generalizing x v position with
  | nil => rfl
  | cons p rest ih =>
    obtain ⟨op, y⟩ := p
    have hrest := ih fun p hp => h p (List.mem_cons_of_mem _ hp)
    have hdiv : ¬ DividesByZero (op, y) := h _ List.mem_cons_self
    rcases hop : op.isProduct with _ | _
    · rw [productsFrom_of_not_isProduct hdiv hop, hrest y, TermSum.first_read_sum x y hop,
        TermSum.rest_read_sum x y hop]
      simp [Except.map, Term.single, Term.value]
    · rw [productsFrom_of_isProduct hdiv hop, hrest y, TermSum.first_read_product x y hop,
        TermSum.rest_read_product x y hop]
      simp [Term.cons]

/-- **The first pass where something is divided by zero** stops there, at the first such place. -/
theorem productsFrom_eq_error {rest : List (Operator × Binary64)}
    (h : ∃ p ∈ rest, DividesByZero p) :
    ∃ i, FirstDividesByZeroAt (restTokens rest) i ∧
      ∀ v position, productsFrom v position rest = .error (.divisionByZero (position + i)) := by
  induction rest with
  | nil =>
    obtain ⟨p, hp, -⟩ := h
    cases hp
  | cons p rest ih =>
    obtain ⟨op, y⟩ := p
    by_cases hp : DividesByZero (op, y)
    · exact ⟨0, ⟨dividesByZeroAt_zero_iff.2 hp, fun j hj => absurd hj (Nat.not_lt_zero j)⟩,
        fun v position => productsFrom_of_dividesByZero hp v position rest⟩
    · obtain ⟨q, hq, hqz⟩ := h
      have hmem : q ∈ rest := (List.mem_cons.1 hq).resolve_left fun e => hp (e ▸ hqz)
      obtain ⟨i, hi, herr⟩ := ih ⟨q, hmem, hqz⟩
      refine ⟨i + 2, ?_, fun v position => ?_⟩
      · exact firstDividesByZeroAt_succ (fun hd => hp (dividesByZeroAt_zero_iff.1 hd))
          (firstDividesByZeroAt_succ not_dividesByZeroAt_number hi)
      · rw [Nat.add_comm i, ← Nat.add_assoc]
        rcases hop : op.isProduct with _ | _
        · rw [productsFrom_of_not_isProduct hp hop, herr]
          rfl
        · rw [productsFrom_of_isProduct hp hop, herr]

/-- The first pass leaves the values of the terms of a chain, unless something is divided by zero;
then it fails at the first such division. -/
theorem products_cases (c : Chain) :
    (∀ i, ¬ DividesByZeroAt c.tokens i) ∧ c.products = .ok (TermSum.read c.first c.rest).values ∨
      ∃ i, FirstDividesByZeroAt c.tokens i ∧ c.products = .error (.divisionByZero i) := by
  rw [products]
  by_cases h : ∃ p ∈ c.rest, DividesByZero p
  · obtain ⟨i, hi, herr⟩ := productsFrom_eq_error h
    refine Or.inr ⟨i + 1, firstDividesByZeroAt_succ not_dividesByZeroAt_number hi, ?_⟩
    rw [herr, Nat.add_comm]
  · have hnone : ∀ p ∈ c.rest, ¬ DividesByZero p := fun p hp hz => h ⟨p, hp, hz⟩
    refine Or.inl ⟨fun i => ?_, ?_⟩
    · rcases i with _ | i
      · exact not_dividesByZeroAt_number
      · exact fun hd => not_dividesByZeroAt_restTokens hnone i (dividesByZeroAt_succ_iff.1 hd)
    · rw [productsFrom_eq_ok hnone c.first, TermSum.values, Term.value, TermSum.first_first_read]

/-- A chain has the value of the sum of terms it reads as, unless something is divided by zero; then
the first such division is the fault. -/
theorem evaluate_tokens_cases (c : Chain) :
    (∀ i, ¬ DividesByZeroAt c.tokens i) ∧
        Keypad.evaluate c.tokens = .ok (TermSum.read c.first c.rest).value ∨
      ∃ i, FirstDividesByZeroAt c.tokens i ∧
        Keypad.evaluate c.tokens = .error (.divisionByZero i) := by
  rw [evaluate_tokens, Chain.evaluate]
  rcases c.products_cases with ⟨hnone, hproducts⟩ | ⟨i, hi, hproducts⟩
  · refine Or.inl ⟨hnone, ?_⟩
    rw [hproducts, ← TermSum.total_values]
    rfl
  · refine Or.inr ⟨i, hi, ?_⟩
    rw [hproducts]
    rfl

/-- **Precedence.**  A chain reads as one sum of terms.  Where nothing is divided by zero, its
tokens evaluate to the value of that sum; otherwise the fault is the division by zero that stands
first. -/
theorem evaluate_eq_value_of_terms (c : Chain) :
    ∃ s : TermSum, (∀ s' : TermSum, s'.tokens = c.tokens ↔ s' = s) ∧
      ((∀ i, ¬ DividesByZeroAt c.tokens i) ∧ Keypad.evaluate c.tokens = .ok s.value ∨
        ∃ i, FirstDividesByZeroAt c.tokens i ∧
          Keypad.evaluate c.tokens = .error (.divisionByZero i)) :=
  ⟨TermSum.read c.first c.rest, fun _ => TermSum.tokens_eq_iff, evaluate_tokens_cases c⟩

end Chain

end Keypad
