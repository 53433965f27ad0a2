import Keypad.Proofs.Calculator.CarriedOver

/-!
# Proofs/Calculator/Repeated — the equals key changes nothing when it is pressed again

Whatever the equals key does ends in a calculator that it leaves as it is.  A result becomes the
entry, and its text reads back as a number with that same text (`Binary64.text_withoutZeroSign`), so
it is calculated again and shown again.  After a fault, or with nothing to calculate, neither entry
nor expression is left to calculate from (`outcome?_commit`).
-/

namespace Keypad.Calculator

variable {c : Calculator} {v : Binary64}

/-! ## What the equals key leaves -/

/-- Committing leaves what would be calculated. -/
theorem outcome?_commit (c : Calculator) : c.commit.outcome? = c.outcome? := by
  rw [outcome?, commit_commit, outcome?]

/-- Without an entry and an expression there is nothing to calculate. -/
theorem outcome?_of_empty (hentry : c.entry = "") (hexpression : c.expression = .empty) :
    c.outcome? = none := by
  rw [outcome?, commit_of_entry_eq hentry, hexpression]
  rfl

/-! ## Pressing it again -/

/-- **A result is calculated again** from its text, which loses the sign of a zero. -/
theorem outcome?_equals_of_ok (h : c.outcome? = some (.ok v)) :
    c.equals.outcome? = some (.ok v.withoutZeroSign) := by
  rw [equals_of_outcome? h]
  exact outcome?_of_expression_eq_empty (number?_of_entry_eq_text rfl) rfl

/-- A result calculated again differs at most in the sign of a zero, which shows nowhere. -/
theorem equals_equals_of_ok (h : c.outcome? = some (.ok v)) : c.equals.equals = c.equals := by
  have hagain := equals_of_outcome? (outcome?_equals_of_ok h)
  have hentry : Outcome.entry (.ok v.withoutZeroSign) = v.text := v.text_withoutZeroSign
  have hline : Outcome.line (.ok v.withoutZeroSign) = v.text := v.text_withoutZeroSign
  rw [hentry, hline] at hagain
  rw [hagain, equals_of_outcome? h]
  rfl

/-- With nothing typed and nothing to calculate, the key does nothing. -/
theorem equals_of_entry_eq (hentry : c.entry = "") (h : c.outcome? = none) : c.equals = c := by
  rw [equals_of_outcome?_eq_none h, commit_of_entry_eq hentry]

/-- **After a fault, or with nothing to calculate, nothing is left**: no entry, and no outcome the
next time. -/
theorem equals_of_no_result (h : ∀ v, c.outcome? ≠ some (.ok v)) :
    c.equals.entry = "" ∧ c.equals.outcome? = none := by
  rcases ho : c.outcome? with _ | (fault | v)
  · rw [equals_of_outcome?_eq_none ho, outcome?_commit]
    exact ⟨c.entry_commit, ho⟩
  · rw [equals_of_outcome? ho]
    exact ⟨rfl, outcome?_of_empty rfl rfl⟩
  · exact absurd ho (h v)

/-- **Pressing the equals key twice is pressing it once**, whatever a calculator holds.  If the
first time gave a number, the second time gives it too, but for the sign of a zero; after a fault,
or with nothing to calculate, there is nothing to calculate the second time. -/
theorem equals_equals (c : Calculator) :
    c.equals.equals = c.equals ∧
      ((∃ v, c.outcome? = some (.ok v) ∧
          c.equals.outcome? = some (.ok (if v = .zero true then .zero false else v))) ∨
        ((∃ fault, c.outcome? = some (.error fault)) ∨ c.outcome? = none) ∧
          c.equals.outcome? = none) := by
  rcases ho : c.outcome? with _ | (fault | v)
  · obtain ⟨hentry, hnone⟩ := equals_of_no_result (c := c) (by simp [ho])
    exact ⟨equals_of_entry_eq hentry hnone, Or.inr ⟨Or.inr rfl, hnone⟩⟩
  · obtain ⟨hentry, hnone⟩ := equals_of_no_result (c := c) (by simp [ho])
    exact ⟨equals_of_entry_eq hentry hnone, Or.inr ⟨Or.inl ⟨fault, rfl⟩, hnone⟩⟩
  · exact ⟨equals_equals_of_ok ho, Or.inl ⟨v, rfl, outcome?_equals_of_ok ho⟩⟩

end Keypad.Calculator
