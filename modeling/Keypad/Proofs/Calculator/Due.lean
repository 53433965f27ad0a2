import Keypad.Calculator.Basic
import Keypad.Proofs.Expression.Ending
import Keypad.Proofs.Numeral.Text

/-!
# Proofs/Calculator/Due — what is due for evaluation, and how operators and equals treat it

The tokens that are **due** are those the equals key would evaluate: the expression with the number
being typed at its end, or without the operator that waits for one.  An operator changes nothing of
what is due (`due_operator`); it only commits it (`expression_operator`).  All of this needs the
expression to be *open*: it must not end in a number, or the number being typed could not be
committed.
-/

namespace Keypad.Calculator

/-! ## What committing does -/

@[simp] theorem entry_withEntry (c : Calculator) (entry : String) :
    (c.withEntry entry).entry = entry := rfl

theorem number?_of_entry_eq {c : Calculator} (h : c.entry = "") : c.number? = none := by
  rw [number?, h]
  decide +kernel

/-- An entry that is the text of a numeral is read as the numeral's value. -/
theorem number?_of_entry_eq_chars {c : Calculator} {n : Numeral} (h : c.entry.toList = n.chars) :
    c.number? = n.toBinary64? := by
  rw [number?, Binary64.ofText?, h, Numeral.trim_chars, Binary64.ofSolidText?_chars]

/-- Committing always empties the entry. -/
@[simp] theorem entry_commit (c : Calculator) : c.commit.entry = "" := by
  unfold commit
  split
  · rfl
  · split
    · assumption
    · rfl

theorem expression_commit_of_number? {c : Calculator} {x : Binary64} (h : c.number? = some x)
    (ho : c.expression.IsOpen) : c.commit.expression = ⟨c.expression.tokens ++ [.number x]⟩ := by
  rw [commit, h]
  exact congrArg (Option.getD · c.expression) (Expression.pushNumber?_of_isOpen ho x)

/-- An entry that spells no number is dropped. -/
theorem commit_of_number?_eq_none {c : Calculator} (h : c.number? = none) :
    c.commit = if c.entry = "" then c else c.withEntry "" := by
  rw [commit, h]

theorem expression_commit_of_number?_eq_none {c : Calculator} (h : c.number? = none) :
    c.commit.expression = c.expression := by
  rw [commit_of_number?_eq_none h]
  split <;> rfl

/-- With nothing typed there is nothing to commit. -/
theorem commit_of_entry_eq {c : Calculator} (h : c.entry = "") : c.commit = c := by
  rw [commit_of_number?_eq_none (number?_of_entry_eq h), if_pos h]

@[simp] theorem commit_commit (c : Calculator) : c.commit.commit = c.commit :=
  commit_of_entry_eq c.entry_commit

/-! ## What is due -/

/-- The tokens that the equals key would evaluate: the expression with the number being typed at its
end, or without the operator at its end if no number is being typed. -/
def due (c : Calculator) : List Token :=
  match c.number? with
  | some x => c.expression.tokens ++ [.number x]
  | none => c.expression.trimmed.tokens

theorem due_of_number? {c : Calculator} {x : Binary64} (h : c.number? = some x) :
    c.due = c.expression.tokens ++ [.number x] := by rw [due, h]

theorem due_of_number?_eq_none {c : Calculator} (h : c.number? = none) :
    c.due = c.expression.trimmed.tokens := by rw [due, h]

/-- What is due is what committing leaves, without an operator at its end. -/
theorem tokens_trimmed_commit {c : Calculator} (h : c.expression.IsOpen) :
    c.commit.expression.trimmed.tokens = c.due := by
  rcases hx : c.number? with _ | x
  · rw [expression_commit_of_number?_eq_none hx, due_of_number?_eq_none hx]
  · rw [expression_commit_of_number? hx h, due_of_number? hx, Expression.trimmed_number]

theorem isEmpty_commit_of_due_ne_nil {c : Calculator} (h : c.expression.IsOpen)
    (hd : c.due ≠ []) : c.commit.expression.isEmpty = false := by
  rw [← tokens_trimmed_commit h] at hd
  rcases he : c.commit.expression with ⟨_ | ⟨t, ts⟩⟩
  · rw [he] at hd
    exact absurd rfl hd
  · rfl

/-! ## Operators -/

/-- **An operator commits what is due**: the expression becomes the tokens due with the operator at
their end, and the entry is empty. -/
theorem expression_operator {c : Calculator} (h : c.expression.IsOpen) (hd : c.due ≠ [])
    (op : Operator) : (c.operator op).expression = ⟨c.due ++ [.operator op]⟩ := by
  have hpush : c.commit.expression.pushOperator? op = some ⟨c.due ++ [.operator op]⟩ := by
    rw [Expression.pushOperator?, isEmpty_commit_of_due_ne_nil h hd, tokens_trimmed_commit h]
    rfl
  rw [operator, hpush]

theorem expression_operator_of_number? {c : Calculator} {x : Binary64} (hx : c.number? = some x)
    (h : c.expression.IsOpen) (op : Operator) :
    (c.operator op).expression = c.expression.extended x op := by
  have hd : c.due ≠ [] := by
    rw [due_of_number? hx]
    exact List.append_ne_nil_of_right_ne_nil _ (List.cons_ne_nil _ _)
  rw [expression_operator h hd, due_of_number? hx, List.append_assoc]
  rfl

/-- Without a number being typed an operator acts on the expression alone. -/
theorem expression_operator_of_number?_eq_none {c : Calculator} (hn : c.number? = none)
    (op : Operator) :
    (c.operator op).expression = (c.expression.pushOperator? op).getD c.expression := by
  rw [operator, expression_commit_of_number?_eq_none hn]
  match c.expression.pushOperator? op with
  | some _ => rfl
  | none => exact expression_commit_of_number?_eq_none hn

/-- **An operator commits the number that the entry is read as**, and no other. -/
theorem expression_operator_eq_iff {c : Calculator} (h : c.expression.IsOpen) {x : Binary64}
    {op : Operator} :
    (c.operator op).expression = c.expression.extended x op ↔ c.number? = some x := by
  refine ⟨fun heq => ?_, fun hx => expression_operator_of_number? hx h op⟩
  match hn : c.number? with
  | some y =>
    rw [expression_operator_of_number? hn h, Expression.extended_inj] at heq
    rw [heq]
  | none =>
    rw [expression_operator_of_number?_eq_none hn] at heq
    exact absurd heq (Expression.getD_pushOperator?_ne_extended _ _ _ _)

@[simp] theorem entry_operator (c : Calculator) (op : Operator) : (c.operator op).entry = "" := by
  unfold operator
  split
  · exact c.entry_commit
  · exact c.entry_commit

/-- **An operator changes nothing of what is due.** -/
theorem due_operator {c : Calculator} (h : c.expression.IsOpen) (hd : c.due ≠ [])
    (op : Operator) : (c.operator op).due = c.due := by
  rw [due_of_number?_eq_none (number?_of_entry_eq (c.entry_operator op)),
    expression_operator h hd, Expression.trimmed_operator]

theorem isOpen_operator {c : Calculator} (h : c.expression.IsOpen) (hd : c.due ≠ [])
    (op : Operator) : (c.operator op).expression.IsOpen := by
  rw [expression_operator h hd]
  exact Expression.isOpen_operator _ _

/-- An operator with nothing before it does nothing. -/
theorem operator_of_empty {c : Calculator} (h : c.entry = "")
    (he : c.expression = Expression.empty) (op : Operator) : c.operator op = c := by
  rw [operator, commit_of_entry_eq h, he]
  rfl

/-! ## Equals -/

/-- An outcome is all that is left of a calculation. -/
theorem equals_of_outcome? {c : Calculator} {o : Outcome} (h : c.outcome? = some o) :
    c.equals = ⟨o.entry, .empty, none, ⟨o.line, o.line⟩⟩ := by
  rw [equals, h]

theorem equals_of_outcome?_eq_none {c : Calculator} (h : c.outcome? = none) :
    c.equals = c.commit := by
  rw [equals, h]

/-- The entry after the equals key is the text of a number, if there is one. -/
theorem entry_equals_cases (c : Calculator) :
    c.equals.entry = "" ∨ ∃ x : Binary64, c.equals.entry = x.text := by
  match h : c.outcome? with
  | some (.ok x) =>
    rw [equals_of_outcome? h]
    exact Or.inr ⟨x, rfl⟩
  | some (.error _) =>
    rw [equals_of_outcome? h]
    exact Or.inl rfl
  | none =>
    rw [equals_of_outcome?_eq_none h]
    exact Or.inl c.entry_commit

/-- The entry after a transform is the text of a number, if there was one. -/
theorem entry_transform_cases (c : Calculator) (t : Transform) :
    (c.transform t).entry = c.entry ∨ ∃ x : Binary64, (c.transform t).entry = x.text := by
  rw [transform]
  match c.number? with
  | some x => exact Or.inr ⟨t.apply x, rfl⟩
  | none => exact Or.inl rfl

/-- **The equals key evaluates what is due.** -/
theorem outcome?_of_due_ne_nil {c : Calculator} (h : c.expression.IsOpen) (hd : c.due ≠ []) :
    c.outcome? = some (evaluate c.due) := by
  rw [outcome?, isEmpty_commit_of_due_ne_nil h hd, tokens_trimmed_commit h]
  rfl

/-- After the equals key the calculator holds the evaluation of what was due, and nothing else. -/
theorem equals_of_due_ne_nil {c : Calculator} (h : c.expression.IsOpen) (hd : c.due ≠ []) :
    c.equals = ⟨(evaluate c.due).entry, .empty, none,
      ⟨(evaluate c.due).line, (evaluate c.due).line⟩⟩ :=
  equals_of_outcome? (outcome?_of_due_ne_nil h hd)

/-- After the equals key both lines show the evaluation of what was due. -/
theorem display_equals {c : Calculator} (h : c.expression.IsOpen) (hd : c.due ≠ []) :
    c.equals.display = ⟨(evaluate c.due).line, (evaluate c.due).line⟩ := by
  rw [equals_of_due_ne_nil h hd]

end Keypad.Calculator
