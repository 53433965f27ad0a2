import Keypad.Proofs.Calculator.Transforms

/-!
# Proofs/Calculator/Negation — negating twice brings the number being typed back

Negation changes the text of a number by a minus sign at its front and by nothing else, in full and
with an exponent part alike (`text_neg`); only zero and NaN are written without one.  The number is
known to the second negation by its text alone, which keeps all of it but the sign of a zero, and
that sign is not written anyway (`negate_negate`).
-/

namespace Keypad

/-- A minus sign at the front is taken away, or put there if there is none. -/
def Text.toggleMinus : List Char → List Char
  | '-' :: cs => cs
  | cs => '-' :: cs

theorem Text.toggleMinus_of_head?_ne {cs : List Char} (h : cs.head? ≠ some '-') :
    toggleMinus cs = '-' :: cs := by
  unfold toggleMinus
  split
  · exact absurd rfl h
  · rfl

/-! ## Numerals -/

/-- The sign of a numeral is the one that its text begins with. -/
theorem Numeral.sign_read_chars (n : Numeral) : (Sign.read n.chars).1 = n.sign := by
  have h := ofChars?_chars n
  simp only [ofChars?] at h
  split at h
  · obtain ⟨scale, -, hn⟩ := Option.map_eq_some_iff.1 h
    exact congrArg sign hn
  · simp at h

/-- A numeral without a sign does not begin with one. -/
theorem Numeral.head?_chars_ne {n : Numeral} (h : n.sign = none) : n.chars.head? ≠ some '-' := by
  intro hhead
  obtain ⟨cs, hcs⟩ := List.head?_eq_some_iff.1 hhead
  have hsign := n.sign_read_chars
  rw [hcs, h] at hsign
  exact Option.some_ne_none _ hsign

namespace Binary64

variable {x : Binary64} {m : Magnitude}

/-- The layout of a number does not depend on its sign. -/
theorem chars_numeral_true (m : Magnitude) :
    (numeral true m).chars = '-' :: (numeral false m).chars := by
  rw [numeral, numeral]
  split <;> rfl

theorem toggleMinus_chars_numeral (s : Bool) (hm : m ≠ Magnitude.zero) :
    Text.toggleMinus (numeral s m).chars = (numeral (!s) m).chars := by
  have hminus := chars_numeral_true m
  cases s with
  | true =>
    rw [hminus]
    rfl
  | false =>
    have hunsigned : (numeral false m).sign = none :=
      (sign_numeral false hm).trans (if_neg m.value_nonneg.not_gt)
    rw [Text.toggleMinus_of_head?_ne (Numeral.head?_chars_ne hunsigned), ← hminus]
    rfl

/-! ## Texts -/

/-- **The negation of a number is shown with the minus sign toggled**, unless it is a zero or
NaN. -/
theorem text_neg (hzero : ¬x.isZero) (hnan : x ≠ nan) :
    (-x).text = String.ofList (Text.toggleMinus x.text.toList) := by
  cases x with
  | nan => exact absurd rfl hnan
  | infinite s => cases s <;> decide
  | finite s m =>
    have hm : m ≠ Magnitude.zero := fun h => hzero (isZero_iff.2 ⟨s, congrArg (finite s) h⟩)
    change (finite (!s) m).text = _
    rw [text, text, if_neg hm, if_neg hm, String.toList_ofList,
      toggleMinus_chars_numeral s hm]

/-- What negation makes of a number, and how its text is written. -/
theorem text_neg_eq (x : Binary64) :
    (-x).text = if x.isZero then "0" else if x = nan then "NaN"
      else String.ofList (Text.toggleMinus x.text.toList) := by
  split
  · rename_i hzero
    obtain ⟨s, rfl⟩ := isZero_iff.1 hzero
    exact (text_eq_zero_iff _).2 (isZero_iff.2 ⟨!s, rfl⟩)
  · rename_i hzero
    split
    · rename_i hnan
      rw [hnan]
      rfl
    · rename_i hnan
      exact text_neg hzero hnan

/-- The negation of a number is shown alike whether or not the sign of a zero was lost. -/
theorem text_neg_withoutZeroSign (x : Binary64) : (-x.withoutZeroSign).text = (-x).text := by
  unfold withoutZeroSign
  split
  · rename_i h
    rw [h]
    rfl
  · rfl

end Binary64

namespace Calculator

open Binary64

variable {c : Calculator} {v : Binary64}

/-- The second negation shows the number that the first was applied to. -/
theorem entry_negate_negate (hv : c.number? = some v) :
    ((c.transform .negate).transform .negate).entry = v.text := by
  rw [entry_transform (number?_transform hv .negate)]
  change (-(-v).withoutZeroSign).text = v.text
  rw [text_neg_withoutZeroSign, Binary64.neg_neg]

/-- **Negating twice restores the number being typed.**  The first negation shows the number with
its minus sign toggled, a zero as `0` and NaN as `NaN`.  The second shows the number itself, and it
is being typed again, without the sign of a zero.  Neither touches the expression, the pending
operator or the lower line, and without a number being typed nothing changes at all. -/
theorem negate_negate (c : Calculator) :
    (∀ v, c.number? = some v →
      (c.transform .negate).entry =
          (if v.isZero then "0" else if v = nan then "NaN"
            else String.ofList (Text.toggleMinus v.text.toList)) ∧
        c.Retypes (c.transform .negate) ∧
        ((c.transform .negate).transform .negate).entry = v.text ∧
        ((c.transform .negate).transform .negate).number? = some v.withoutZeroSign ∧
        c.Retypes ((c.transform .negate).transform .negate)) ∧
      (c.entry = "" ∨ c.number? = none → c.transform .negate = c) := by
  refine ⟨fun v hv => ?_, fun h => ?_⟩
  · have htwice := entry_negate_negate hv
    have hfirst := retypes_transform hv .negate
    have hsecond := retypes_transform (number?_transform hv .negate) .negate
    exact ⟨(entry_transform hv .negate).trans (text_neg_eq v), hfirst, htwice,
      number?_of_entry_eq_text htwice, hfirst.trans hsecond⟩
  · have hnone : c.number? = none := h.elim number?_of_entry_eq id
    rw [transform, hnone]

end Calculator

end Keypad
