import Keypad.Proofs.Calculator.Due
import Keypad.Proofs.Expression.Text
import Keypad.Proofs.Numeral.Typed
import Keypad.Proofs.Numeral.Value

/-!
# Proofs/Calculator/Entry — what keys can leave as the entry

The equals key and the transforms put the text of a number into the entry, the removal of a
character can cut that text anywhere, and typing goes on after the cut.  So whatever keys are
pressed, the entry is **staged**: the beginning of the text of some number, and then digits and
points, with one point at most in all (`isStaged_press`).  As long as no number is put there it is
**typed**: empty, or digits with a point behind them or none (`isTyped_press`), and it is read
unless it is too great (`entry_press_fresh`).
-/

namespace Keypad

/-! ## Staged texts -/

/-- The text of a number holds one point at most. -/
theorem Binary64.count_point_text (x : Binary64) : x.text.toList.count '.' ≤ 1 := by
  match x with
  | nan => decide +kernel
  | infinite negative =>
    revert negative
    decide +kernel
  | finite negative m =>
    rw [text]
    split
    · decide +kernel
    · rw [String.toList_ofList, Numeral.count_point_chars]
      split <;> decide

/-- A text that keys can leave as the entry: what is left of the text of a number that was shown,
and then what was typed, digits and points, with one point at most in all. -/
structure IsStaged (cs : List Char) : Prop where
  exists_shown_typed : ∃ (x : Binary64) (shown typed : List Char), shown <+: x.text.toList ∧
    (∀ c ∈ typed, c = '.' ∨ ∃ d : Digit, d.char = c) ∧ shown ++ typed = cs
  count_point_le : cs.count '.' ≤ 1

namespace IsStaged

variable {cs : List Char}

theorem text (x : Binary64) : IsStaged x.text.toList := by
  refine ⟨⟨x, _, [], List.prefix_rfl, fun c hc => ?_, List.append_nil _⟩, x.count_point_text⟩
  exact absurd hc List.not_mem_nil

theorem concat {c : Char} (h : IsStaged cs) (hc : c = '.' ∨ ∃ d : Digit, d.char = c)
    (hcount : (cs ++ [c]).count '.' ≤ 1) : IsStaged (cs ++ [c]) := by
  obtain ⟨x, shown, typed, hshown, htyped, rfl⟩ := h.exists_shown_typed
  refine ⟨⟨x, shown, typed ++ [c], hshown, fun b hb => ?_, (List.append_assoc _ _ _).symm⟩, hcount⟩
  obtain hb | hb := List.mem_append.1 hb
  · exact htyped b hb
  · rwa [List.mem_singleton.1 hb]

/-- Digits are typed anywhere. -/
theorem concat_digit (h : IsStaged cs) (d : Digit) : IsStaged (cs ++ [d.char]) := by
  refine h.concat (Or.inr ⟨d, rfl⟩) ?_
  rw [List.count_append, List.count_singleton, beq_eq_false_iff_ne.2 d.char_ne_point]
  exact h.count_point_le

/-- The first point is typed anywhere. -/
theorem concat_point (h : IsStaged cs) (hpoint : '.' ∉ cs) : IsStaged (cs ++ ['.']) := by
  refine h.concat (Or.inl rfl) ?_
  rw [List.count_append, List.count_eq_zero.2 hpoint, List.count_singleton_self]

/-- What is typed is removed first, and then what was shown. -/
theorem dropLast (h : IsStaged cs) : IsStaged cs.dropLast := by
  obtain ⟨⟨x, shown, typed, hshown, htyped, rfl⟩, hcount⟩ := h
  refine ⟨?_, ((List.dropLast_sublist _).count_le '.').trans hcount⟩
  obtain rfl | ⟨ds, c, rfl⟩ := List.eq_nil_or_concat' typed
  · refine ⟨x, shown.dropLast, [], (List.dropLast_prefix shown).trans hshown, htyped, ?_⟩
    rw [List.append_nil, List.append_nil]
  · refine ⟨x, shown, ds, hshown, fun b hb => htyped b (List.mem_append_left _ hb), ?_⟩
    rw [← List.append_assoc, List.dropLast_concat]

theorem nil : IsStaged [] := (text (.zero false)).dropLast

/-- There is no white space in a staged text. -/
theorem isWhiteSpace_of_mem (h : IsStaged cs) {c : Char} (hc : c ∈ cs) :
    Text.isWhiteSpace c = false := by
  obtain ⟨x, shown, typed, hshown, htyped, rfl⟩ := h.exists_shown_typed
  obtain hc | hc := List.mem_append.1 hc
  · exact x.isWhiteSpace_of_mem_text (hshown.subset hc)
  · obtain rfl | hdigit := htyped c hc
    · decide
    · exact Numeral.isWhiteSpace_of_isNumeralChar (Or.inl hdigit)

theorem trim_eq (h : IsStaged cs) : Text.trim cs = cs :=
  Text.trim_of_solid (fun _ hc => h.isWhiteSpace_of_mem (List.mem_of_mem_head? hc))
    fun _ hc => h.isWhiteSpace_of_mem (List.mem_of_getLast? hc)

end IsStaged

/-! ## Keys -/

/-- The key empties the entry, whatever it is. -/
inductive Key.Empties : Key → Prop
  | operator (op : Operator) : Empties (.operator op)
  | clear : Empties .clear

/-- The key may put the text of a number into the entry. -/
inductive Key.Computes : Key → Prop
  | equals : Computes .equals
  | transform (t : Transform) : Computes (.transform t)

namespace Calculator

open Numeral (IsTyped typedText)

variable {c : Calculator} {k : Key}

/-- A property of texts that typing keeps: digits, a first point after other characters, and
removals at the end. -/
structure KeptByTyping (P : List Char → Prop) : Prop where
  nil : P []
  concat_digit {cs : List Char} : P cs → ∀ d : Digit, P (cs ++ [d.char])
  concat_point {cs : List Char} : P cs → cs ≠ [] → '.' ∉ cs → P (cs ++ ['.'])
  dropLast {cs : List Char} : P cs → P cs.dropLast

theorem keptByTyping_isStaged : KeptByTyping IsStaged :=
  ⟨.nil, fun h d => h.concat_digit d, fun h _ hpoint => h.concat_point hpoint, fun h => h.dropLast⟩

theorem keptByTyping_isTyped : KeptByTyping IsTyped :=
  ⟨Or.inl rfl, fun h d => h.concat_digit d, fun h => h.concat_point, fun h => h.dropLast⟩

variable {P : List Char → Prop}

/-- The point key puts a zero before its point if there is nothing, and keeps to one point. -/
theorem KeptByTyping.pointed (hP : KeptByTyping P) {entry : String} (h : P entry.toList) :
    P (pointed entry).toList := by
  rw [Calculator.pointed]
  by_cases hempty : entry = ""
  · rw [if_pos hempty]
    exact hP.concat_point (hP.concat_digit hP.nil 0) (List.cons_ne_nil _ _) (by decide)
  · rw [if_neg hempty]
    split
    · exact h
    · rw [String.toList_push]
      exact hP.concat_point h (fun hnil => hempty (String.toList_eq_nil_iff.1 hnil)) ‹_›

/-- **What typing keeps, a key keeps that puts no number into the entry.** -/
theorem KeptByTyping.perform (hP : KeptByTyping P) (h : P c.entry.toList) (hk : ¬k.Computes) :
    P (c.perform k.action).entry.toList := by
  match k with
  | .digit d =>
    change P (c.entry.push d.char).toList
    rw [String.toList_push]
    exact hP.concat_digit h d
  | .point => exact hP.pointed h
  | .backspace =>
    change P (String.ofList c.entry.toList.dropLast).toList
    rw [String.toList_ofList]
    exact hP.dropLast h
  | .operator op =>
    change P (c.operator op).entry.toList
    rw [entry_operator]
    exact hP.nil
  | .clear => exact hP.nil
  | .equals => exact absurd .equals hk
  | .transform t => exact absurd (.transform t) hk

/-! ## Runs of keys -/

/-- **A key leaves a staged entry.** -/
theorem isStaged_perform (h : IsStaged c.entry.toList) (k : Key) :
    IsStaged (c.perform k.action).entry.toList := by
  by_cases hk : k.Computes
  · match hk with
    | .equals =>
      change IsStaged c.equals.entry.toList
      obtain hempty | ⟨x, hx⟩ := c.entry_equals_cases
      · rw [hempty]
        exact .nil
      · rw [hx]
        exact .text x
    | .transform t =>
      change IsStaged (c.transform t).entry.toList
      obtain hsame | ⟨x, hx⟩ := c.entry_transform_cases t
      · rwa [hsame]
      · rw [hx]
        exact .text x
  · exact keptByTyping_isStaged.perform h hk

/-- **Keys leave a staged entry.** -/
theorem isStaged_press (h : IsStaged c.entry.toList) (keys : List Key) :
    IsStaged (c.press keys).entry.toList := by
  induction keys generalizing c with
  | nil => exact h
  | cons k keys ih => exact ih (isStaged_perform h k)

/-- **Keys leave a typed entry** if none of them puts a number there. -/
theorem isTyped_press (h : IsTyped c.entry.toList) {keys : List Key}
    (hkeys : ∀ k ∈ keys, ¬k.Computes) : IsTyped (c.press keys).entry.toList := by
  induction keys generalizing c with
  | nil => exact h
  | cons k keys ih =>
    have hfirst : IsTyped (c.perform k.action).entry.toList :=
      keptByTyping_isTyped.perform h (hkeys k List.mem_cons_self)
    exact ih hfirst fun k' hk' => hkeys k' (List.mem_cons_of_mem k hk')

/-- An operator key empties the entry whether or not the operator is taken. -/
theorem entry_perform_of_empties (hk : k.Empties) : (c.perform k.action).entry = "" := by
  match hk with
  | .operator op => exact c.entry_operator op
  | .clear => rfl

/-- The entry is empty at the start and after a key that empties it. -/
theorem entry_press_of_empties {keys : List Key} (h : ∀ k ∈ keys.getLast?, k.Empties) :
    (fresh.press keys).entry = "" := by
  obtain rfl | ⟨earlier, k, rfl⟩ := List.eq_nil_or_concat' keys
  · rfl
  · rw [press_append]
    exact entry_perform_of_empties (h k List.getLast?_concat)

/-- A typed entry is read unless it is too great. -/
theorem exists_numeral_of_mem_typedText (h : c.entry.toList ∈ typedText) :
    ∃ n : Numeral, n.chars = c.entry.toList ∧
      (c.number? = none ↔ Magnitude.overflowBound ≤ n.value) := by
  obtain ⟨n, hsign, -, hn⟩ := Numeral.exists_numeral_of_mem_typedText h
  refine ⟨n, hn, ?_⟩
  rw [number?_of_entry_eq_chars hn.symm, Numeral.toBinary64?_eq_none_iff,
    abs_of_nonneg (Numeral.value_nonneg_of_sign_eq_none hsign)]

/-- **The language of the entry.**  Whatever keys are pressed, the entry is staged.  If none of
those after an operator key, the clear key or the start puts a number there, it is empty or typed,
and then it is read unless the number that it denotes is beyond the greatest by half a step or
more. -/
theorem entry_press_fresh (keys : List Key) :
    IsStaged (fresh.press keys).entry.toList ∧
      ∀ before after, keys = before ++ after → (∀ k ∈ before.getLast?, k.Empties) →
        (∀ k ∈ after, ¬k.Computes) →
        (fresh.press keys).entry = "" ∨
          (fresh.press keys).entry.toList ∈ typedText ∧
            ∃ n : Numeral, n.chars = (fresh.press keys).entry.toList ∧
              ((fresh.press keys).number? = none ↔ Magnitude.overflowBound ≤ n.value) := by
  refine ⟨isStaged_press (c := fresh) .nil keys, ?_⟩
  rintro before after rfl hbefore hafter
  have htyped : IsTyped (fresh.press (before ++ after)).entry.toList := by
    rw [press_append]
    refine isTyped_press ?_ hafter
    rw [entry_press_of_empties hbefore]
    exact Or.inl rfl
  obtain hnil | htext := htyped
  · exact Or.inl (String.toList_eq_nil_iff.1 hnil)
  · exact Or.inr ⟨htext, exists_numeral_of_mem_typedText htext⟩

/-- Keys that leave a reciprocal in the entry, and then an operator key. -/
def reciprocalKeys : List Key :=
  (Digit.spell 49).map .digit ++ [.transform .reciprocal, .operator .multiply]

/-- Keys that type a point, once more in vain, and remove it. -/
def removedPointKeys : List Key := [.point, .point, .backspace]

theorem entry_press_fresh_removedPoint :
    (fresh.press (reciprocalKeys ++ removedPointKeys)).entry = "0" ∧
      ((fresh.press (reciprocalKeys ++ removedPointKeys)).entry = "" ∨
        (fresh.press (reciprocalKeys ++ removedPointKeys)).entry.toList ∈ typedText ∧
          ∃ n : Numeral,
            n.chars = (fresh.press (reciprocalKeys ++ removedPointKeys)).entry.toList ∧
              ((fresh.press (reciprocalKeys ++ removedPointKeys)).number? = none ↔
                Magnitude.overflowBound ≤ n.value)) := by
  have hbefore : ∀ k ∈ reciprocalKeys.getLast?, k.Empties := by
    intro k hk
    rw [reciprocalKeys, List.append_cons, List.getLast?_concat] at hk
    obtain rfl := Option.some.inj hk
    exact .operator .multiply
  have hafter : ∀ k ∈ removedPointKeys, ¬k.Computes := by
    rintro k hk ⟨⟩ <;> simp [removedPointKeys] at hk
  exact ⟨by decide +kernel, (entry_press_fresh _).2 _ _ rfl hbefore hafter⟩

end Calculator

end Keypad
