import Keypad.Proofs.Calculator.LowerLine
import Keypad.Proofs.Expression.Text

/-!
# Proofs/Calculator/UpperLine — the upper line is justified by what the calculator holds

The upper line is a second copy of the calculator's state, which every action updates by a rule of
its own, or leaves.  `ShowsState` lists what the line may show: the number being typed whenever
there is one, and else a blank, the expression, or the word for an error that left nothing behind.
Every action keeps it so (`ShowsState.perform`), and no line is ever empty (`showsState_run`).
-/

namespace Keypad.Calculator

variable {c : Calculator} {ps : List (Binary64 × Operator)}

/-! ## What the upper line may show -/

/-- The upper line shows the number being typed, or without one a blank, the expression, or that a
calculation failed; the lower line then says so as well. -/
inductive ShowsState (c : Calculator) : Prop
  | entry (typing : c.entry ≠ "") (upper : c.display.upper = c.entry)
  | blank (idle : c.entry = "") (upper : c.display.upper = "0")
  | expression (idle : c.entry = "") (ne_empty : c.expression ≠ .empty)
      (upper : c.display.upper = c.expression.text)
  | fault (idle : c.entry = "") (eq_empty : c.expression = .empty)
      (upper : c.display.upper = "Error") (lower : c.display.lower = "Error")

theorem ShowsState.upper_ne_empty (h : c.ShowsState) : c.display.upper ≠ "" := by
  cases h with
  | entry typing upper => rwa [upper]
  | blank _ upper => rw [upper]; decide
  | expression _ ne_empty upper => rw [upper]; exact Expression.text_ne_empty ne_empty
  | fault _ _ upper _ => rw [upper]; decide

/-! ## Actions -/

/-- A new entry is shown, or a blank in its place. -/
theorem showsState_withEntry (c : Calculator) (entry : String) :
    (c.withEntry entry).ShowsState := by
  by_cases h : entry = ""
  · exact .blank h (if_pos h)
  · exact .entry h (if_neg h)

theorem ShowsState.transform (h : c.ShowsState) (t : Transform) : (c.transform t).ShowsState := by
  unfold Calculator.transform
  split
  · exact showsState_withEntry c _
  · exact h

/-- An entry that spells no number leaves a blank. -/
theorem ShowsState.commit (h : c.ShowsState) (hn : c.number? = none) : c.commit.ShowsState := by
  rw [commit_of_number?_eq_none hn]
  split
  · exact h
  · exact showsState_withEntry c ""

/-- An operator is ignored only if no number is being typed: a number that is committed leaves an
expression that takes the operator. -/
theorem number?_eq_none_of_pushOperator? {op : Operator} (ho : c.expression.IsOpen)
    (h : c.commit.expression.pushOperator? op = none) : c.number? = none := by
  rw [Expression.pushOperator?_eq_none_iff] at h
  rcases hx : c.number? with _ | x
  · rfl
  · rw [expression_commit_of_number? hx ho] at h
    simp [Expression.empty] at h

/-- An operator shows the expression it goes into, or is ignored. -/
theorem ShowsState.operator (h : c.ShowsState) (ho : c.expression.IsOpen) (op : Operator) :
    (c.operator op).ShowsState := by
  rcases he : c.commit.expression.pushOperator? op with _ | e
  · rw [Calculator.operator, he]
    exact h.commit (number?_eq_none_of_pushOperator? ho he)
  · rw [Calculator.operator, he]
    exact .expression c.entry_commit (Expression.ne_empty_of_pushOperator? he) rfl

/-- The equals key shows the number that becomes the entry, or that there is none. -/
theorem ShowsState.equals (h : c.ShowsState) (hps : c.HasCommitted ps) : c.equals.ShowsState := by
  by_cases hd : c.due = []
  · rw [hps.equals_of_due_eq_nil hd]
    exact h.commit (hps.of_due_eq_nil hd).1
  · rw [equals_of_due_ne_nil hps.isOpen hd]
    rcases evaluate c.due with fault | v
    · exact .fault rfl rfl rfl rfl
    · exact .entry v.text_ne_empty rfl

/-- **Every action leaves a justified upper line.** -/
theorem ShowsState.perform (h : c.ShowsState) (hps : c.HasCommitted ps) (a : Action) :
    (c.perform a).ShowsState := by
  cases a with
  | type ch => exact showsState_withEntry c _
  | point => exact showsState_withEntry c _
  | backspace => exact showsState_withEntry c _
  | operator op => exact h.operator hps.isOpen op
  | equals => exact h.equals hps
  | clear => exact .blank rfl rfl
  | transform t => exact h.transform t

/-! ## Runs -/

theorem Reachable.showsState (h : c.Reachable) : c.ShowsState := by
  induction h with
  | fresh => exact .blank rfl rfl
  | perform hc a ih =>
    obtain ⟨ps, hps⟩ := hc.exists_hasCommitted
    exact ih.perform hps a

/-- **What the display shows after any actions.**  The upper line is justified by what the
calculator holds, and neither line is empty. -/
theorem showsState_run (actions : List Action) :
    (fresh.run actions).ShowsState ∧ (fresh.run actions).display.upper ≠ "" ∧
      (fresh.run actions).display.lower ≠ "" := by
  have h : (fresh.run actions).ShowsState := (Reachable.fresh.run actions).showsState
  refine ⟨h, h.upper_ne_empty, ?_⟩
  rw [lower_run]
  rcases (fresh.events actions).getLast? with _ | e
  · exact (by decide : Display.blankLine ≠ "")
  · exact e.line_ne_empty

end Keypad.Calculator
