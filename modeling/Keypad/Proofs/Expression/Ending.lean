import Keypad.Expression.Basic

/-!
# Proofs/Expression/Ending — what stands at the end of an expression

Pushes and trimming look at the last token only, so an expression is taken apart at its end: it is
empty, or ends in a number, or ends in an operator (`eq_empty_or_concat`).  One that does not end in
a number is *open* and takes a number; a number is refused by the others (`pushNumber?_eq_none_iff`)
and an operator by the empty expression alone (`pushOperator?_eq_none_iff`).
-/

namespace Keypad.Expression

variable {e f : Expression}

/-- An expression is taken apart at its end. -/
theorem eq_empty_or_concat (e : Expression) :
    e = empty ∨ (∃ ts x, e = ⟨ts ++ [.number x]⟩) ∨ ∃ ts op, e = ⟨ts ++ [.operator op]⟩ := by
  obtain ⟨tokens⟩ := e
  rcases tokens.eq_nil_or_concat with rfl | ⟨ts, x | op, rfl⟩
  · exact Or.inl rfl
  · exact Or.inr (Or.inl ⟨ts, x, by rw [List.concat_eq_append]⟩)
  · exact Or.inr (Or.inr ⟨ts, op, by rw [List.concat_eq_append]⟩)

/-! ## Open expressions -/

/-- The expression does not end in a number. -/
def IsOpen (e : Expression) : Prop := ∀ x, e.tokens.getLast? ≠ some (.number x)

theorem isOpen_empty : empty.IsOpen := by
  intro x h
  cases h

theorem isOpen_operator (ts : List Token) (op : Operator) : IsOpen ⟨ts ++ [.operator op]⟩ := by
  intro x h
  rw [List.getLast?_concat] at h
  cases h

/-- An open expression takes a number. -/
theorem pushNumber?_of_isOpen (h : e.IsOpen) (x : Binary64) :
    e.pushNumber? x = some ⟨e.tokens ++ [.number x]⟩ := by
  rw [pushNumber?]
  split
  · rename_i y hy
    exact absurd hy (h y)
  · rfl

/-! ## Pushes that are refused -/

/-- **Only a number at the end refuses a number.** -/
theorem pushNumber?_eq_none_iff {x : Binary64} :
    e.pushNumber? x = none ↔ ∃ y, e.tokens.getLast? = some (.number y) := by
  rw [pushNumber?]
  split
  · rename_i y hy
    exact iff_of_true rfl ⟨y, hy⟩
  · rename_i hopen
    refine iff_of_false (Option.some_ne_none _) ?_
    rintro ⟨y, hy⟩
    exact hopen y hy

/-- **Only the empty expression refuses an operator.** -/
theorem pushOperator?_eq_none_iff {op : Operator} : e.pushOperator? op = none ↔ e = empty := by
  rcases e with ⟨_ | ⟨t, ts⟩⟩ <;> simp [pushOperator?, isEmpty, empty]

theorem ne_empty_of_pushOperator? {op : Operator} (h : e.pushOperator? op = some f) :
    f ≠ empty := by
  unfold pushOperator? at h
  split at h
  · cases h
  · obtain rfl := Option.some.inj h
    simp [empty]

/-! ## Trimming -/

@[simp] theorem trimmed_number (ts : List Token) (x : Binary64) :
    trimmed ⟨ts ++ [.number x]⟩ = ⟨ts ++ [.number x]⟩ := by
  simp [trimmed, trailingOperator?]

@[simp] theorem trimmed_operator (ts : List Token) (op : Operator) :
    trimmed ⟨ts ++ [.operator op]⟩ = ⟨ts⟩ := by
  simp [trimmed, trailingOperator?]

theorem length_tokens_trimmed_le (e : Expression) :
    e.trimmed.tokens.length ≤ e.tokens.length := by
  rw [trimmed]
  split
  · exact (List.dropLast_sublist _).length_le
  · exact Nat.le_refl _

/-! ## Expressions with a number and an operator more -/

/-- The expression with a number and an operator at its end. -/
def extended (e : Expression) (x : Binary64) (op : Operator) : Expression :=
  ⟨e.tokens ++ [.number x, .operator op]⟩

@[simp] theorem extended_inj {x y : Binary64} {op : Operator} :
    e.extended x op = e.extended y op ↔ x = y := by
  simp [extended]

/-- An operator alone adds one token at most. -/
theorem getD_pushOperator?_ne_extended (e : Expression) (op op' : Operator) (x : Binary64) :
    (e.pushOperator? op).getD e ≠ e.extended x op' := by
  intro h
  have hlength := congrArg (fun f => f.tokens.length) h
  have htrimmed := e.length_tokens_trimmed_le
  rw [pushOperator?] at hlength
  split at hlength
  · simp only [extended, Option.getD_none, List.length_append, List.length_cons] at hlength
    omega
  · simp only [extended, Option.getD_some, List.length_append, List.length_cons,
      List.length_nil] at hlength
    omega

end Keypad.Expression
