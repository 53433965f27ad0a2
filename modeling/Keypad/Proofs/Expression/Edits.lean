import Keypad.Proofs.Expression.Alternation
import Keypad.Proofs.Expression.Pushes

/-!
# Proofs/Expression/Edits — however an expression is edited, its tokens alternate

Pushes, trimming and clearing are all that changes an expression, and each of them leaves numbers at
the even indices and operators at the odd ones (`alternates_edit`).  So after any edits only an
operator at the end can be at fault: evaluation reports the last token as malformed if there is an
even number of them, and else nothing (`Alternates.evaluate_malformed_iff`).  Trimming leaves an
odd number.
-/

namespace Keypad

namespace Alternates

variable {ts front rest : List Token} {t u : Token} {i : ℕ}

/-! ## Tokens that alternate, at their end -/

theorem of_append (h : Alternates (front ++ rest)) : Alternates front := by
  intro i hi
  obtain ⟨t, ht, -⟩ := id hi
  have hlt : i < front.length := (List.getElem?_eq_some_iff.1 ht).1
  exact h i ((misplacedAt_append_of_lt hlt).2 hi)

theorem fitsAt_length (h : Alternates (front ++ [t])) : t.FitsAt front.length := by
  by_contra hmisplaced
  exact h _ (misplacedAt_append_length.2 hmisplaced)

/-- A token of the other kind than the last one goes on alternating. -/
theorem concat_of_unlike (h : Alternates (front ++ [u])) (hunlike : u.isOperator ≠ t.isOperator) :
    Alternates (front ++ [u] ++ [t]) := by
  apply h.concat
  have hu := h.fitsAt_length
  cases u <;> cases t
  case number.number | operator.operator => exact absurd rfl hunlike
  all_goals
    simp only [Token.FitsAt, List.length_append, List.length_singleton] at hu ⊢
    omega

/-- A token of the same kind can stand in the place of the last one. -/
theorem concat_of_like (h : Alternates (front ++ [u])) (hlike : t.isOperator = u.isOperator) :
    Alternates (front ++ [t]) := by
  apply h.of_append.concat
  have hu := h.fitsAt_length
  cases u <;> cases t
  case number.operator | operator.number => cases hlike
  all_goals exact hu

/-- **Tokens that alternate break off at an operator at their end, or not at all.** -/
theorem breaksAt_iff (h : Alternates ts) :
    BreaksAt ts i ↔ ts.length % 2 = 0 ∧ i = ts.length - 1 := by
  constructor
  · intro hi
    cases hi with
    | empty => exact ⟨rfl, rfl⟩
    | misplaced here _ => exact absurd here (h i)
    | @trailing _ _ op _ last length_eq =>
      obtain ⟨front, rfl⟩ := List.getLast?_eq_some_iff.1 last
      have hodd : front.length % 2 = 1 := h.fitsAt_length
      rw [List.length_append, List.length_singleton] at length_eq ⊢
      omega
  · rintro ⟨heven, rfl⟩
    rcases ts.eq_nil_or_concat' with rfl | ⟨front, x | op, rfl⟩
    · exact .empty
    · have hfront : front.length % 2 = 0 := h.fitsAt_length
      rw [List.length_append, List.length_singleton] at heven
      omega
    · refine .trailing h List.getLast?_concat ?_
      rw [List.length_append, List.length_singleton, Nat.add_sub_cancel]

/-- **Tokens that alternate are malformed if there is an even number of them**, and then at the
last. -/
theorem evaluate_malformed_iff (h : Alternates ts) :
    evaluate ts = .error (.malformed i) ↔ ts.length % 2 = 0 ∧ i = ts.length - 1 := by
  rw [evaluate_eq_malformed_iff_breaksAt, h.breaksAt_iff]

/-- Tokens that alternate begin with a number. -/
theorem head?_ne_operator (h : Alternates ts) (op : Operator) : ts.head? ≠ some (.operator op) := by
  intro hhead
  rw [List.head?_eq_getElem?] at hhead
  exact h 0 ⟨_, hhead, Nat.zero_ne_one⟩

end Alternates

namespace Expression

variable {e : Expression}

/-! ## Edits -/

/-- What can be done to an expression. -/
inductive Edit where
  | push (t : Token)
  | trim
  | clear
deriving DecidableEq

/-- The expression after an edit. -/
def edit (e : Expression) : Edit → Expression
  | .push t => e.push t
  | .trim => e.trimmed
  | .clear => .empty

/-- Edits are made one after the other. -/
def editAll (e : Expression) (edits : List Edit) : Expression := edits.foldl edit e

/-- A push goes on alternating, or leaves a token of the same kind at the end: of two tokens of one
kind, pushed in a row, one is kept. -/
theorem alternates_push (h : Alternates e.tokens) (t : Token) : Alternates (e.push t).tokens := by
  obtain ⟨tokens⟩ := e
  rcases tokens.eq_nil_or_concat' with rfl | ⟨ts, u, rfl⟩
  · cases t with
    | number x => exact h.concat rfl
    | operator op => exact h
  · by_cases hlike : t.isOperator = u.isOperator
    · have hrun : ∀ v ∈ [u, t], v.isOperator = u.isOperator := by simp [hlike]
      obtain ⟨v, -, hv, hpush⟩ := pushAll_run hrun
      rw [show push ⟨ts ++ [u]⟩ t = ⟨ts ++ [v]⟩ from hpush ts]
      exact h.concat_of_like hv
    · rw [push_of_unlike (Ne.symm hlike)]
      exact h.concat_of_unlike (Ne.symm hlike)

theorem alternates_trimmed (h : Alternates e.tokens) : Alternates e.trimmed.tokens := by
  rcases e.eq_empty_or_concat with rfl | ⟨ts, x, rfl⟩ | ⟨ts, op, rfl⟩
  · exact alternates_nil
  · rwa [trimmed_number]
  · rw [trimmed_operator]
    exact h.of_append

/-- **Every edit leaves tokens that alternate.** -/
theorem alternates_edit (h : Alternates e.tokens) (a : Edit) : Alternates (e.edit a).tokens := by
  cases a with
  | push t => exact alternates_push h t
  | trim => exact alternates_trimmed h
  | clear => exact alternates_nil

theorem alternates_editAll (h : Alternates e.tokens) (edits : List Edit) :
    Alternates (e.editAll edits).tokens := by
  induction edits generalizing e with
  | nil => exact h
  | cons a edits ih => exact ih (alternates_edit h a)

/-- Trimming leaves an odd number of tokens. -/
theorem length_tokens_trimmed (h : Alternates e.tokens) (hne : e.tokens ≠ []) :
    e.trimmed.tokens.length % 2 = 1 := by
  rcases e.eq_empty_or_concat with rfl | ⟨ts, x, rfl⟩ | ⟨ts, op, rfl⟩
  · exact absurd rfl hne
  · have heven : ts.length % 2 = 0 := h.fitsAt_length
    rw [trimmed_number, List.length_append, List.length_singleton]
    omega
  · rw [trimmed_operator]
    exact h.fitsAt_length

/-- **An edited expression is at most one operator away from a value.**  After any edits of an empty
expression the tokens do not begin with an operator, and numbers and operators alternate.  They are
malformed only if there is an even number of them, and then at the last one; and never once an
operator at the end is trimmed, if there are tokens at all. -/
theorem alternates_editAll_empty (edits : List Edit) :
    (∀ op, (empty.editAll edits).tokens.head? ≠ some (.operator op)) ∧
      Alternates (empty.editAll edits).tokens ∧
      (∀ i, evaluate (empty.editAll edits).tokens = .error (.malformed i) ↔
        (empty.editAll edits).tokens.length % 2 = 0 ∧
          i = (empty.editAll edits).tokens.length - 1) ∧
      ((empty.editAll edits).tokens ≠ [] →
        ∀ i, evaluate (empty.editAll edits).trimmed.tokens ≠ .error (.malformed i)) := by
  have h : Alternates (empty.editAll edits).tokens := alternates_editAll alternates_nil edits
  refine ⟨h.head?_ne_operator, h, fun i => h.evaluate_malformed_iff, fun hne i hi => ?_⟩
  obtain ⟨heven, -⟩ := (alternates_trimmed h).evaluate_malformed_iff.1 hi
  have hodd := length_tokens_trimmed h hne
  omega

end Expression

end Keypad
