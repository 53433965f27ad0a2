import Keypad.Proofs.Calculator.Committed
import Keypad.Proofs.Expression.Precedence

/-!
# Proofs/Calculator/Equals — what the equals key makes of what is due

In a reachable calculator the tokens that are due, if there are any, are those of a chain, so that
evaluating them can fail only by a division by zero (`HasCommitted.evaluate_due_cases`).  The equals
key uses them up and shows their evaluation; with nothing due it keeps all that is committed
(`equals_of_reachable`).
-/

namespace Keypad.Calculator

variable {c : Calculator} {ps : List (Binary64 × Operator)}

/-- What is due has a value, or divides by zero. -/
theorem HasCommitted.evaluate_due_cases (h : c.HasCommitted ps) (hd : c.due ≠ []) :
    (∃ v, evaluate c.due = .ok v) ∨ ∃ i, evaluate c.due = .error (.divisionByZero i) := by
  rcases h.due_cases with ⟨hnil, -⟩ | ⟨chain, hchain⟩
  · exact absurd hnil hd
  · rw [hchain]
    rcases chain.evaluate_tokens_cases with ⟨-, hv⟩ | ⟨i, -, hi⟩
    · exact Or.inl ⟨_, hv⟩
    · exact Or.inr ⟨i, hi⟩

/-- Committing leaves the lower line. -/
theorem lower_commit (c : Calculator) : c.commit.display.lower = c.display.lower := by
  unfold commit
  split
  · rfl
  · split <;> rfl

/-- **The equals key.**  In a reachable calculator with nothing due there is no outcome, and only an
entry that spells no number goes, with the upper line.  With something due the outcome is its
evaluation, which is a number or a division by zero; nothing stays committed, and the number becomes
the entry and shows on both lines, or the word for an error does. -/
theorem equals_of_reachable (h : c.Reachable) :
    c.due = [] ∧ c.outcome? = none ∧
        c.equals.expression = c.expression ∧ c.equals.pending = c.pending ∧
        c.equals.display.lower = c.display.lower ∧ c.equals.entry = "" ∧
        (c.entry = "" → c.equals = c) ∨
      c.due ≠ [] ∧ c.outcome? = some (evaluate c.due) ∧
        c.equals.expression = .empty ∧ c.equals.pending = none ∧
        ((∃ v, evaluate c.due = .ok v ∧
            c.equals.entry = v.text ∧ c.equals.display = ⟨v.text, v.text⟩) ∨
          ∃ i, evaluate c.due = .error (.divisionByZero i) ∧
            c.equals.entry = "" ∧ c.equals.display = ⟨"Error", "Error"⟩) := by
  obtain ⟨ps, hps⟩ := h.exists_hasCommitted
  by_cases hd : c.due = []
  · left
    have hn : c.number? = none := (hps.of_due_eq_nil hd).1
    have hcommit : c.commit.HasCommitted ps := hps.commit hn
    rw [hps.equals_of_due_eq_nil hd]
    refine ⟨hd, hps.outcome?_of_due_eq_nil hd, ?_, ?_, c.lower_commit, c.entry_commit,
      fun he => ?_⟩
    · rw [hcommit.expression_eq, hps.expression_eq]
    · rw [hcommit.pending_eq, hps.pending_eq]
    · rw [commit_of_number?_eq_none hn, if_pos he]
  · right
    rw [equals_of_due_ne_nil hps.isOpen hd]
    refine ⟨hd, outcome?_of_due_ne_nil hps.isOpen hd, rfl, rfl, ?_⟩
    rcases hps.evaluate_due_cases hd with ⟨v, hv⟩ | ⟨i, hi⟩
    · rw [hv]
      exact Or.inl ⟨v, rfl, rfl, rfl⟩
    · rw [hi]
      exact Or.inr ⟨i, rfl, rfl, rfl⟩

/-- A calculator that is to divide by zero, with an operator after that and an entry that spells no
number. -/
def dividing : Calculator :=
  fresh.run [.type '5', .operator .divide, .type '0', .operator .add, .type '-']

theorem equals_of_reachable_dividing :
    dividing.Reachable ∧ dividing.outcome? = some (.error (.divisionByZero 1)) ∧
      dividing.equals.expression = .empty ∧ dividing.equals.entry = "" ∧
      dividing.equals.display = ⟨"Error", "Error"⟩ := by
  have h : dividing.Reachable := Reachable.fresh.run _
  have hdue : dividing.due = [.number (.ofNat 5), .operator .divide, .number (.zero false)] := by
    decide +kernel
  have hevaluate : evaluate dividing.due = .error (.divisionByZero 1) := by
    rw [hdue]
    rfl
  rcases equals_of_reachable h with ⟨hd, -⟩ | ⟨-, ho, hexpr, -, ⟨v, hv, -⟩ | ⟨i, -, hentry, hshow⟩⟩
  · rw [hdue] at hd
    cases hd
  · rw [hevaluate] at hv
    cases hv
  · exact ⟨h, ho.trans (congrArg some hevaluate), hexpr, hentry, hshow⟩

end Keypad.Calculator
