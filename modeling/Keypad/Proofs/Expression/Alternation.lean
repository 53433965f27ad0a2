import Keypad.Proofs.Expression.Passes

/-!
# Proofs/Expression/Alternation — where a list of tokens stops alternating

Numbers stand at the even indices of a chain and operators at the odd ones, a number last.
`BreaksAt ts i` says where a list of tokens first departs from that: at its first token of the wrong
kind, or at an operator that is left at its end; the empty list departs at once.  A list breaks off
at one place if it is not the tokens of a chain, and nowhere if it is; evaluation reports just that
place as malformed (`evaluate_eq_malformed_iff`).
-/

namespace Keypad

/-! ## Misplaced tokens -/

/-- A token is of the kind that stands at an index: numbers at even ones, operators at odd ones. -/
def Token.FitsAt (i : Nat) : Token → Prop
  | .number _ => i % 2 = 0
  | .operator _ => i % 2 = 1

/-- The token at index `i` is of the wrong kind. -/
def MisplacedAt (ts : List Token) (i : Nat) : Prop := ∃ t, ts[i]? = some t ∧ ¬ t.FitsAt i

/-- No token is of the wrong kind. -/
def Alternates (ts : List Token) : Prop := ∀ i, ¬ MisplacedAt ts i

/-- A list of tokens departs from the alternation at an index. -/
inductive BreaksAt : List Token → Nat → Prop
  | empty : BreaksAt [] 0
  | misplaced {ts : List Token} {i : Nat} (here : MisplacedAt ts i)
      (first : ∀ j < i, ¬ MisplacedAt ts j) : BreaksAt ts i
  | trailing {ts : List Token} {i : Nat} {op : Operator} (alternates : Alternates ts)
      (last : ts.getLast? = some (.operator op)) (length_eq : i + 1 = ts.length) : BreaksAt ts i

theorem alternates_nil : Alternates [] := by
  rintro i ⟨t, ht, -⟩
  cases ht

theorem misplacedAt_append_of_lt {front rest : List Token} {i : Nat} (h : i < front.length) :
    MisplacedAt (front ++ rest) i ↔ MisplacedAt front i := by
  rw [MisplacedAt, MisplacedAt, List.getElem?_append_left h]

theorem misplacedAt_append_length {front rest : List Token} {t : Token} :
    MisplacedAt (front ++ t :: rest) front.length ↔ ¬ t.FitsAt front.length := by
  simp [MisplacedAt]

theorem Alternates.concat {front : List Token} {t : Token} (h : Alternates front)
    (ht : t.FitsAt front.length) : Alternates (front ++ [t]) := by
  intro i hi
  rcases Nat.lt_trichotomy i front.length with hlt | rfl | hgt
  · exact h i ((misplacedAt_append_of_lt hlt).1 hi)
  · exact misplacedAt_append_length.1 hi ht
  · obtain ⟨u, hu, -⟩ := hi
    rw [List.getElem?_eq_none (by simp; omega)] at hu
    cases hu

/-- The token after a front that alternates is the first that can be of the wrong kind. -/
theorem Alternates.breaksAt {front rest : List Token} {t : Token} (h : Alternates front)
    (ht : ¬ t.FitsAt front.length) : BreaksAt (front ++ t :: rest) front.length :=
  .misplaced (misplacedAt_append_length.2 ht) fun j hj hmis =>
    h j ((misplacedAt_append_of_lt hj).1 hmis)

/-! ## Chains do not break off -/

namespace Chain

theorem alternates_append_restTokens {front : List Token} (h : Alternates front)
    (hodd : front.length % 2 = 1) (rest : List (Operator × Binary64)) :
    Alternates (front ++ restTokens rest) := by
  induction rest generalizing front with
  | nil => rwa [show restTokens [] = [] from rfl, List.append_nil]
  | cons p rest ih =>
    have hop : Alternates (front ++ [.operator p.1]) := h.concat hodd
    have hnumber : Alternates (front ++ [.operator p.1] ++ [.number p.2]) := by
      apply hop.concat
      rw [Token.FitsAt, List.length_append, List.length_singleton]
      omega
    have hrest := ih hnumber (by simp; omega)
    rwa [List.append_assoc, List.append_assoc] at hrest

theorem length_restTokens (rest : List (Operator × Binary64)) :
    (restTokens rest).length = 2 * rest.length := by
  induction rest with
  | nil => rfl
  | cons p rest ih =>
    rw [restTokens_cons, List.length_cons, List.length_cons, ih, List.length_cons]
    omega

/-- The tokens of a chain alternate. -/
theorem alternates_tokens (c : Chain) : Alternates c.tokens := by
  have hfirst : Alternates [.number c.first] := alternates_nil.concat rfl
  exact alternates_append_restTokens hfirst rfl c.rest

/-- **The tokens of a chain break off nowhere**: they begin and end with a number, the last of an
odd number of tokens at an even index. -/
theorem not_breaksAt_tokens (c : Chain) (i : Nat) : ¬ BreaksAt c.tokens i := by
  intro h
  generalize hts : c.tokens = ts at h
  cases h with
  | empty => cases hts
  | misplaced here _ => exact c.alternates_tokens i (hts ▸ here)
  | trailing alternates last length_eq =>
    have hlength : ts.length = 2 * c.rest.length + 1 := by
      rw [← hts, tokens, List.length_cons, length_restTokens]
    have hlast : ts[i]? = ts.getLast? := by
      rw [List.getLast?_eq_getElem?, ← length_eq, Nat.add_sub_cancel]
    refine alternates i ⟨_, hlast.trans last, fun hodd => ?_⟩
    rw [Token.FitsAt] at hodd
    omega

/-! ## Reading finds where a list breaks off -/

/-- Operators with their right operands are read up to where they break off, counted from a front
that alternates and ends in a number. -/
theorem breaksAt_of_restOfTokens {position p : Nat} {ts : List Token}
    (h : restOfTokens position ts = .error p) {front : List Token} (hfront : Alternates front)
    (hlength : front.length = position) (hodd : position % 2 = 1) : BreaksAt (front ++ ts) p := by
  fun_induction restOfTokens position ts generalizing front with
  | case1 => cases h
  | case2 position op y ts ih =>
    cases hr : restOfTokens (position + 2) ts with
    | ok rest =>
      rw [hr] at h
      cases h
    | error q =>
      rw [hr] at h
      obtain rfl := Except.error.inj h
      have hop : Alternates (front ++ [.operator op]) := hfront.concat (hlength ▸ hodd)
      have hnumber : Alternates (front ++ [.operator op] ++ [.number y]) := by
        apply hop.concat
        rw [Token.FitsAt, List.length_append, List.length_singleton]
        omega
      have hbreaks := ih hr hnumber (by simp [hlength]) (by omega)
      rwa [List.append_assoc, List.append_assoc] at hbreaks
  | case3 position op op' ts =>
    obtain rfl := Except.error.inj h
    have hop : Alternates (front ++ [.operator op]) := hfront.concat (hlength ▸ hodd)
    have hkind : ¬ (Token.operator op').FitsAt (front ++ [Token.operator op]).length := by
      rw [Token.FitsAt, List.length_append, List.length_singleton]
      omega
    have hbreaks : BreaksAt (front ++ [.operator op] ++ .operator op' :: ts) _ :=
      hop.breaksAt hkind
    rw [List.length_append, List.length_singleton, hlength, List.append_assoc] at hbreaks
    exact hbreaks
  | case4 position op =>
    obtain rfl := Except.error.inj h
    exact .trailing (hfront.concat (hlength ▸ hodd)) List.getLast?_concat (by simp [hlength])
  | case5 position x ts =>
    obtain rfl := Except.error.inj h
    exact hlength ▸ hfront.breaksAt fun heven => by
      rw [Token.FitsAt] at heven
      omega

theorem breaksAt_of_ofTokens {ts : List Token} {p : Nat} (h : ofTokens ts = .error p) :
    BreaksAt ts p := by
  unfold ofTokens at h
  split at h
  · rename_i x ts
    cases hr : restOfTokens 1 ts with
    | ok rest =>
      rw [hr] at h
      cases h
    | error q =>
      rw [hr] at h
      obtain rfl := Except.error.inj h
      exact breaksAt_of_restOfTokens hr (alternates_nil.concat (t := .number x) rfl) rfl rfl
  · rename_i hfirst
    obtain rfl := Except.error.inj h
    match ts with
    | [] => exact .empty
    | .number x :: ts => exact absurd rfl (hfirst x ts)
    | .operator op :: ts => exact alternates_nil.breaksAt (t := .operator op) Nat.zero_ne_one

end Chain

/-- **A list of tokens breaks off at one place at most.** -/
theorem BreaksAt.unique {ts : List Token} {i j : Nat} (hi : BreaksAt ts i) (hj : BreaksAt ts j) :
    i = j := by
  cases hi with
  | empty =>
    cases hj with
    | empty => rfl
    | misplaced here _ => exact absurd here (alternates_nil j)
    | trailing _ last _ => cases last
  | misplaced here first =>
    cases hj with
    | empty => exact absurd here (alternates_nil i)
    | misplaced here' first' =>
      rcases Nat.lt_trichotomy i j with hlt | heq | hgt
      · exact absurd here (first' i hlt)
      · exact heq
      · exact absurd here' (first j hgt)
    | trailing alternates _ _ => exact absurd here (alternates i)
  | trailing alternates last length_eq =>
    cases hj with
    | empty => cases last
    | misplaced here _ => exact absurd here (alternates j)
    | trailing _ _ length_eq' => omega

/-- **Reading finds the place where a list breaks off.** -/
theorem Chain.ofTokens_eq_error_iff {ts : List Token} {i : Nat} :
    ofTokens ts = .error i ↔ BreaksAt ts i := by
  refine ⟨breaksAt_of_ofTokens, fun hi => ?_⟩
  cases h : ofTokens ts with
  | ok c => exact absurd (ofTokens_eq_ok_iff.1 h ▸ hi) (c.not_breaksAt_tokens i)
  | error j => rw [hi.unique (breaksAt_of_ofTokens h)]

/-- A chain may divide by zero, but is never malformed. -/
theorem Chain.evaluate_ne_malformed (c : Chain) (i : Nat) :
    c.evaluate ≠ .error (.malformed i) := by
  rw [← evaluate_tokens]
  rcases c.evaluate_tokens_cases with ⟨-, h⟩ | ⟨j, -, h⟩
  · rw [h]
    rintro ⟨⟩
  · rw [h]
    rintro ⟨⟩

theorem evaluate_eq_malformed_iff_breaksAt {ts : List Token} {i : Nat} :
    evaluate ts = .error (.malformed i) ↔ BreaksAt ts i := by
  rw [← Chain.ofTokens_eq_error_iff, evaluate]
  cases Chain.ofTokens ts with
  | error j => simp
  | ok c => simp [c.evaluate_ne_malformed i]

/-- **Malformed tokens.**  A list of tokens is malformed exactly if no chain has it as its tokens,
whatever it divides by, and exactly where it breaks off.  For the tokens of a chain neither pass
comes upon anything malformed: the first finds the operands of all products and quotients, and what
it leaves the second adds up. -/
theorem evaluate_eq_malformed_iff (ts : List Token) :
    ((∃ i, evaluate ts = .error (.malformed i)) ↔ ¬ ∃ c : Chain, c.tokens = ts) ∧
      (∀ i, evaluate ts = .error (.malformed i) ↔ BreaksAt ts i) ∧
      ∀ c : Chain,
        (∃ i, Passes.multiplyOut [] 0 c.tokens = .error (.divisionByZero i) ∧
            evaluate c.tokens = .error (.divisionByZero i)) ∨
          ∃ left v, Passes.multiplyOut [] 0 c.tokens = .ok left ∧ Passes.sumUp? left = some v ∧
            evaluate c.tokens = .ok v := by
  refine ⟨?_, fun i => evaluate_eq_malformed_iff_breaksAt, fun c => c.evaluate_tokens_passes⟩
  constructor
  · rintro ⟨i, hi⟩ ⟨c, rfl⟩
    exact c.not_breaksAt_tokens i (evaluate_eq_malformed_iff_breaksAt.1 hi)
  · intro h
    cases hread : Chain.ofTokens ts with
    | ok c => exact absurd ⟨c, Chain.ofTokens_eq_ok_iff.1 hread⟩ h
    | error i =>
      exact ⟨i, evaluate_eq_malformed_iff_breaksAt.2 (Chain.ofTokens_eq_error_iff.1 hread)⟩

end Keypad
