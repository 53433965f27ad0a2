import Keypad.Proofs.Calculator.Due
import Mathlib.Data.List.Basic
import Mathlib.Data.List.ModifyLast

/-!
# Proofs/Calculator/Committed — between actions an expression is a row of pairs

What a calculator has **committed** is a row of numbers, each with an operator to its right.
Between actions these pairs are its expression, and the operator of the last one is pending
(`Reachable.exists_hasCommitted`); only within an action does an expression end in a number.  So no
number being typed is ever refused: an operator adds it to the pairs, and without such a number it
replaces the last operator (`exists_hasCommitted_run`).
-/

namespace Keypad

/-! ## Expressions made of pairs -/

namespace Expression

/-- The expression of numbers, each with the operator to its right. -/
def ofPairs (ps : List (Binary64 × Operator)) : Expression :=
  ⟨ps.flatMap fun p => [.number p.1, .operator p.2]⟩

theorem ofPairs_concat (ps : List (Binary64 × Operator)) (x : Binary64) (op : Operator) :
    ofPairs (ps ++ [(x, op)]) = ⟨(ofPairs ps).tokens ++ [.number x] ++ [.operator op]⟩ := by
  simp [ofPairs]

theorem isOpen_ofPairs (ps : List (Binary64 × Operator)) : (ofPairs ps).IsOpen := by
  obtain rfl | ⟨qs, ⟨x, op⟩, rfl⟩ := List.eq_nil_or_concat' ps
  · exact isOpen_empty
  · rw [ofPairs_concat]
    exact isOpen_operator _ op

end Expression

/-- The chain of numbers, each with the operator to its right, and one last number. -/
def Chain.ofPairs : List (Binary64 × Operator) → Binary64 → Chain
  | [], last => ⟨last, []⟩
  | (x, op) :: ps, last => ⟨x, (op, (ofPairs ps last).first) :: (ofPairs ps last).rest⟩

theorem Chain.tokens_ofPairs (ps : List (Binary64 × Operator)) (last : Binary64) :
    (ofPairs ps last).tokens = (Expression.ofPairs ps).tokens ++ [.number last] := by
  induction ps with
  | nil => rfl
  | cons p ps ih => exact congrArg ([Token.number p.1, .operator p.2] ++ ·) ih

namespace Calculator

variable {c : Calculator} {ps : List (Binary64 × Operator)}

/-! ## Reachable calculators -/

/-- A calculator that actions make of a fresh one. -/
inductive Reachable : Calculator → Prop
  | fresh : Reachable fresh
  | perform {c : Calculator} : Reachable c → (a : Action) → Reachable (c.perform a)

theorem Reachable.run (h : c.Reachable) (actions : List Action) : (c.run actions).Reachable := by
  induction actions generalizing c with
  | nil => exact h
  | cons a actions ih => exact ih (h.perform a)

/-! ## What each action keeps -/

/-- The pairs that a calculator has committed: they are its expression, and the operator of the last
one is pending. -/
structure HasCommitted (c : Calculator) (ps : List (Binary64 × Operator)) : Prop where
  expression_eq : c.expression = .ofPairs ps
  pending_eq : c.pending = ps.getLast?.map Prod.snd

theorem hasCommitted_fresh : fresh.HasCommitted [] := ⟨rfl, rfl⟩

theorem HasCommitted.isOpen (h : c.HasCommitted ps) : c.expression.IsOpen :=
  h.expression_eq ▸ Expression.isOpen_ofPairs ps

/-- Typing commits nothing. -/
theorem HasCommitted.withEntry (h : c.HasCommitted ps) (entry : String) :
    (c.withEntry entry).HasCommitted ps := ⟨h.expression_eq, h.pending_eq⟩

theorem HasCommitted.transform (h : c.HasCommitted ps) (t : Transform) :
    (c.transform t).HasCommitted ps := by
  unfold Calculator.transform
  split
  · exact h.withEntry _
  · exact h

/-- An entry that spells no number commits nothing. -/
theorem HasCommitted.commit (h : c.HasCommitted ps) (hn : c.number? = none) :
    c.commit.HasCommitted ps := by
  rw [commit_of_number?_eq_none hn]
  split
  · exact h
  · exact h.withEntry ""

/-! ## Operators -/

/-- An operator that is taken into the expression is pending. -/
theorem hasCommitted_operator {x : Binary64} {op : Operator}
    (h : c.commit.expression.pushOperator? op = some (.ofPairs (ps ++ [(x, op)]))) :
    (c.operator op).HasCommitted (ps ++ [(x, op)]) := by
  rw [operator, h]
  refine ⟨rfl, ?_⟩
  rw [List.getLast?_concat]
  rfl

/-- **The number being typed is committed with the operator**; it is never refused. -/
theorem HasCommitted.operator_of_number? (h : c.HasCommitted ps) {x : Binary64}
    (hx : c.number? = some x) (op : Operator) :
    (c.operator op).HasCommitted (ps ++ [(x, op)]) := by
  apply hasCommitted_operator
  rw [expression_commit_of_number? hx h.isOpen, h.expression_eq, Expression.pushOperator?_number,
    Expression.ofPairs_concat]

/-- **Without a number being typed the last operator is replaced**, if there is one. -/
theorem HasCommitted.operator_of_number?_eq_none (h : c.HasCommitted ps) (hn : c.number? = none)
    (op : Operator) : (c.operator op).HasCommitted (ps.modifyLast fun p => (p.1, op)) := by
  have hexpr : c.commit.expression = .ofPairs ps := (h.commit hn).expression_eq
  obtain rfl | ⟨qs, ⟨y, old⟩, rfl⟩ := List.eq_nil_or_concat' ps
  · have hpush : c.commit.expression.pushOperator? op = none := by
      rw [hexpr]
      rfl
    rw [operator, hpush]
    exact h.commit hn
  · rw [List.modifyLast_concat]
    apply hasCommitted_operator
    rw [hexpr, Expression.ofPairs_concat, Expression.pushOperator?_operator,
      Expression.ofPairs_concat]

/-! ## Equals -/

/-- **What is due is a chain**, or nothing where no number is being typed and none is committed. -/
theorem HasCommitted.due_cases (h : c.HasCommitted ps) :
    c.due = [] ∧ c.number? = none ∧ ps = [] ∨ ∃ chain : Chain, c.due = chain.tokens := by
  rcases hx : c.number? with _ | x
  · rw [due_of_number?_eq_none hx, h.expression_eq]
    obtain rfl | ⟨qs, ⟨y, op⟩, rfl⟩ := List.eq_nil_or_concat' ps
    · exact Or.inl ⟨rfl, rfl, rfl⟩
    · right
      refine ⟨.ofPairs qs y, ?_⟩
      rw [Expression.ofPairs_concat, Expression.trimmed_operator, Chain.tokens_ofPairs]
  · right
    refine ⟨.ofPairs ps x, ?_⟩
    rw [due_of_number? hx, h.expression_eq, Chain.tokens_ofPairs]

theorem HasCommitted.of_due_eq_nil (h : c.HasCommitted ps) (hd : c.due = []) :
    c.number? = none ∧ ps = [] := by
  rcases h.due_cases with ⟨-, hnone⟩ | ⟨chain, hchain⟩
  · exact hnone
  · rw [hd] at hchain
    cases hchain

/-- With nothing due there is nothing to calculate. -/
theorem HasCommitted.outcome?_of_due_eq_nil (h : c.HasCommitted ps) (hd : c.due = []) :
    c.outcome? = none := by
  obtain ⟨hn, rfl⟩ := h.of_due_eq_nil hd
  rw [outcome?, (h.commit hn).expression_eq]
  rfl

/-- With nothing due the equals key drops an entry that spells no number. -/
theorem HasCommitted.equals_of_due_eq_nil (h : c.HasCommitted ps) (hd : c.due = []) :
    c.equals = c.commit :=
  equals_of_outcome?_eq_none (h.outcome?_of_due_eq_nil hd)

/-- The equals key uses up what is committed. -/
theorem HasCommitted.equals (h : c.HasCommitted ps) : c.equals.HasCommitted [] := by
  by_cases hd : c.due = []
  · obtain ⟨hn, rfl⟩ := h.of_due_eq_nil hd
    rw [h.equals_of_due_eq_nil hd]
    exact h.commit hn
  · rw [equals_of_due_ne_nil h.isOpen hd]
    exact ⟨rfl, rfl⟩

/-! ## Runs -/

/-- **Every action leaves a row of pairs.** -/
theorem HasCommitted.perform (h : c.HasCommitted ps) (a : Action) :
    ∃ qs, (c.perform a).HasCommitted qs := by
  cases a with
  | type ch => exact ⟨ps, h.withEntry _⟩
  | point => exact ⟨ps, h.withEntry _⟩
  | backspace => exact ⟨ps, h.withEntry _⟩
  | operator op =>
    rcases hx : c.number? with _ | x
    · exact ⟨_, h.operator_of_number?_eq_none hx op⟩
    · exact ⟨_, h.operator_of_number? hx op⟩
  | equals => exact ⟨[], h.equals⟩
  | clear => exact ⟨[], hasCommitted_fresh⟩
  | transform t => exact ⟨ps, h.transform t⟩

/-- **Every reachable calculator has committed a row of pairs.** -/
theorem Reachable.exists_hasCommitted (h : c.Reachable) : ∃ ps, c.HasCommitted ps := by
  induction h with
  | fresh => exact ⟨[], hasCommitted_fresh⟩
  | perform _ a ih =>
    obtain ⟨ps, hps⟩ := ih
    exact hps.perform a

/-- Between actions an expression does not end in a number. -/
theorem Reachable.isOpen (h : c.Reachable) : c.expression.IsOpen := by
  obtain ⟨ps, hps⟩ := h.exists_hasCommitted
  exact hps.isOpen

/-- **What actions commit.**  After any actions the expression is a row of pairs and the operator of
the last one is pending.  It takes any number; an operator adds the number being typed and itself to
the pairs, and without such a number it replaces the operator of the last pair, if there is one. -/
theorem exists_hasCommitted_run (actions : List Action) :
    ∃ ps, (fresh.run actions).HasCommitted ps ∧
      (∀ x, ((fresh.run actions).expression.pushNumber? x).isSome = true) ∧
      ∀ op,
        (∀ x, (fresh.run actions).number? = some x →
          ((fresh.run actions).operator op).HasCommitted (ps ++ [(x, op)])) ∧
        ((fresh.run actions).number? = none →
          ((fresh.run actions).operator op).HasCommitted
            (ps.modifyLast fun p => (p.1, op))) ∧
        ((fresh.run actions).operator op).entry = "" := by
  obtain ⟨ps, h⟩ := (Reachable.fresh.run actions).exists_hasCommitted
  refine ⟨ps, h, fun x => ?_, fun op => ⟨fun x hx => ?_, fun hn => ?_, ?_⟩⟩
  · rw [Expression.pushNumber?_of_isOpen h.isOpen]
    rfl
  · exact h.operator_of_number? hx op
  · exact h.operator_of_number?_eq_none hn op
  · exact entry_operator _ op

end Calculator

end Keypad
