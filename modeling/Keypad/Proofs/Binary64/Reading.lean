import Keypad.Proofs.Binary64.Rounding
import Keypad.Proofs.Numeral.Grammar
import Keypad.Proofs.Numeral.Text
import Keypad.Proofs.Numeral.Value
import Keypad.Proofs.Text.Trimming

/-!
# Proofs/Binary64/Reading — which texts are read, and as which numbers

Apart from the white space around it, a text that is read is one of three words or in the grammar of
numerals, and a numeral is read as the number it denotes, rounded (`ofText?_eq_some_iff`).  Nothing
bounds the digits of a numeral or its exponent.
-/

namespace Keypad

/-! ## Numerals -/

namespace Numeral

open Binary64

/-- A numeral has a sign of the number it denotes; that of zero is the one written. -/
theorem isSignOf_value (n : Numeral) : IsSignOf n.isNegative n.value := by
  have hnonneg := n.decimal.value_nonneg
  rw [value_eq]
  rcases n.isNegative with _ | _
  · exact hnonneg
  · exact neg_nonpos.2 hnonneg

/-- No two numerals share a text. -/
theorem chars_injective {n n' : Numeral} (h : n.chars = n'.chars) : n = n' := by
  have hread := ofChars?_chars n
  rw [h, ofChars?_chars] at hread
  exact (Option.some.inj hread).symm

/-- **A numeral is read as the number it denotes, rounded**, if that is finite; the sign of zero is
the one written. -/
theorem toBinary64?_eq_some_iff_rounds {n : Numeral} {x : Binary64} :
    n.toBinary64? = some x ↔ Rounds n.value x ∧ ∃ m, x = finite n.isNegative m := by
  rw [toBinary64?_eq_some_iff]
  constructor
  · rintro ⟨m, hm, rfl⟩
    exact ⟨(rounds_finite_iff n.isSignOf_value).2 hm, m, rfl⟩
  · rintro ⟨hx, m, rfl⟩
    exact ⟨m, (rounds_finite_iff n.isSignOf_value).1 hx, rfl⟩

end Numeral

/-! ## Texts -/

namespace Binary64

open Numeral

/-- A text that neither begins nor ends in white space is a word, or is read as a numeral. -/
theorem ofSolidText?_eq_some_iff {cs : List Char} {x : Binary64} :
    ofSolidText? cs = some x ↔
      cs = "NaN".toList ∧ x = nan ∨
      cs = "Infinity".toList ∧ x = infinite false ∨
      cs = "-Infinity".toList ∧ x = infinite true ∨
      ∃ n : Numeral, n.chars = cs ∧ n.toBinary64? = some x := by
  constructor
  · intro h
    rw [ofSolidText?] at h
    split at h
    · rename_i hcs
      exact Or.inl ⟨hcs, (Option.some.inj h).symm⟩
    split at h
    · rename_i hcs
      exact Or.inr (Or.inl ⟨hcs, (Option.some.inj h).symm⟩)
    split at h
    · rename_i hcs
      exact Or.inr (Or.inr (Or.inl ⟨hcs, (Option.some.inj h).symm⟩))
    · obtain ⟨n, hn, hx⟩ := Option.bind_eq_some_iff.1 h
      exact Or.inr (Or.inr (Or.inr ⟨n, ofChars?_eq_some_iff.1 hn, hx⟩))
  · rintro (⟨rfl, rfl⟩ | ⟨rfl, rfl⟩ | ⟨rfl, rfl⟩ | ⟨n, rfl, hx⟩)
    · rfl
    · rfl
    · rfl
    · rw [ofSolidText?_chars, hx]

/-- **Reading accepts the three words and the numerals that round to a finite number**, with white
space around them; a numeral is read as the number it denotes, rounded to nearest, ties to even,
with the sign that is written. -/
theorem ofText?_eq_some_iff (s : String) (x : Binary64) :
    ofText? s = some x ↔ ∃ t, Text.IsTrimmed s.toList t ∧
      (t = "NaN".toList ∧ x = nan ∨
        t = "Infinity".toList ∧ x = infinite false ∨
        t = "-Infinity".toList ∧ x = infinite true ∨
        t ∈ Numeral.grammar ∧ ∀ n : Numeral, n.chars = t →
          Rounds n.value x ∧ ∃ m, x = finite n.isNegative m) := by
  have hnumeral : ∀ t : List Char,
      (∃ n : Numeral, n.chars = t ∧ n.toBinary64? = some x) ↔
        t ∈ grammar ∧ ∀ n : Numeral, n.chars = t →
          Rounds n.value x ∧ ∃ m, x = finite n.isNegative m := by
    intro t
    constructor
    · rintro ⟨n, rfl, hx⟩
      refine ⟨mem_grammar_iff.2 ⟨n, rfl⟩, fun n' hn' => ?_⟩
      obtain rfl := chars_injective hn'
      exact toBinary64?_eq_some_iff_rounds.1 hx
    · rintro ⟨ht, hx⟩
      obtain ⟨n, rfl⟩ := mem_grammar_iff.1 ht
      exact ⟨n, rfl, toBinary64?_eq_some_iff_rounds.2 (hx n rfl)⟩
  rw [ofText?, ofSolidText?_eq_some_iff, hnumeral]
  constructor
  · intro h
    exact ⟨Text.trim s.toList, Text.isTrimmed_trim _, h⟩
  · rintro ⟨t, ht, h⟩
    rw [ht.trim_eq]
    exact h

end Binary64

end Keypad
