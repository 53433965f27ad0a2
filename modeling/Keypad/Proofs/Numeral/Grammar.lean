import Keypad.Numeral.Basic
import Mathlib.Computability.Language

/-!
# Proofs/Numeral/Grammar — the regular language of the texts of numerals

`Numeral.grammar` is the language

    [+-]? (D+ | D+ '.' D* | '.' D+) ([eE] [+-]? D+)?

where `D` is an ASCII digit.  A text is in it exactly if it is the text of a numeral
(`mem_grammar_iff`), so that the proof field of a numeral asks neither for more nor for fewer digits
than the grammar does.
-/

namespace Keypad.Numeral

open scoped Computability

/-! ## The language -/

/-- The text of one digit. -/
def digitText : Language Char := {cs | ∃ d : Digit, [d.char] = cs}

/-- One digit or more. -/
def digitsText : Language Char := digitText * digitText∗

/-- A sign that may be left out. -/
def signText : Language Char := 1 + ({['+']} + {['-']})

/-- An exponent part that may be left out. -/
def scaleText : Language Char := 1 + ({['e']} + {['E']}) * signText * digitsText

/-- Digits, with a point before, among or after them, or with none. -/
def mantissaText : Language Char :=
  digitsText + digitsText * {['.']} * digitText∗ + {['.']} * digitsText

/-- The texts that the grammar of numerals accepts. -/
def grammar : Language Char := signText * mantissaText * scaleText

/-! ## Its texts -/

theorem mem_digitText_kstar_iff {cs : List Char} :
    cs ∈ digitText∗ ↔ ∃ ds : List Digit, Digit.chars ds = cs := by
  constructor
  · intro h
    obtain ⟨css, rfl, hcss⟩ := Language.mem_kstar.1 h
    induction css with
    | nil => exact ⟨[], rfl⟩
    | cons cs css ih =>
      obtain ⟨d, rfl⟩ := hcss cs List.mem_cons_self
      have hrest : ∀ w ∈ css, w ∈ digitText := fun w hw => hcss w (List.mem_cons_of_mem _ hw)
      obtain ⟨ds, hds⟩ := ih hrest (Language.join_mem_kstar hrest)
      exact ⟨d :: ds, congrArg (d.char :: ·) hds⟩
  · rintro ⟨ds, rfl⟩
    refine Language.mem_kstar.2 ⟨ds.map fun d => [d.char], ?_, fun w hw => ?_⟩
    · rw [Digit.chars, List.map_eq_flatMap, List.flatMap_def]
    · obtain ⟨d, -, rfl⟩ := List.mem_map.1 hw
      exact ⟨d, rfl⟩

theorem mem_digitsText_iff {cs : List Char} :
    cs ∈ digitsText ↔ ∃ ds : List Digit, ds ≠ [] ∧ Digit.chars ds = cs := by
  constructor
  · intro h
    obtain ⟨_, ⟨d, rfl⟩, _, hrest, rfl⟩ := Language.mem_mul.1 h
    obtain ⟨ds, rfl⟩ := mem_digitText_kstar_iff.1 hrest
    exact ⟨d :: ds, List.cons_ne_nil d ds, rfl⟩
  · rintro ⟨_ | ⟨d, ds⟩, hne, rfl⟩
    · exact absurd rfl hne
    · exact Language.append_mem_mul (a := [d.char]) ⟨d, rfl⟩ (mem_digitText_kstar_iff.2 ⟨ds, rfl⟩)

theorem mem_signText_iff {cs : List Char} :
    cs ∈ signText ↔ ∃ s : Option Sign, Sign.chars s = cs := by
  constructor
  · rintro (h | h | h)
    · exact ⟨none, h.symm⟩
    · exact ⟨some .plus, h.symm⟩
    · exact ⟨some .minus, h.symm⟩
  · rintro ⟨_ | _ | _, rfl⟩
    · exact Or.inl rfl
    · exact Or.inr (Or.inl rfl)
    · exact Or.inr (Or.inr rfl)

theorem mem_scaleText_iff {cs : List Char} :
    cs ∈ scaleText ↔ ∃ s : Option Scale, scaleChars s = cs := by
  constructor
  · rintro (h | h)
    · exact ⟨none, h.symm⟩
    · obtain ⟨_, hfront, digits, hdigits, rfl⟩ := Language.mem_mul.1 h
      obtain ⟨letter, hletter, sign, hsign, rfl⟩ := Language.mem_mul.1 hfront
      obtain ⟨s, rfl⟩ := mem_signText_iff.1 hsign
      obtain ⟨ds, hne, rfl⟩ := mem_digitsText_iff.1 hdigits
      rcases hletter with rfl | rfl
      · exact ⟨some ⟨false, s, ds, hne⟩, rfl⟩
      · exact ⟨some ⟨true, s, ds, hne⟩, rfl⟩
  · rintro ⟨_ | ⟨isCapital, s, ds, hne⟩, rfl⟩
    · exact Or.inl rfl
    · have hletter : [if isCapital then 'E' else 'e'] ∈ ({['e']} + {['E']} : Language Char) := by
        rcases isCapital with _ | _
        · exact Or.inl rfl
        · exact Or.inr rfl
      exact Or.inr (Language.append_mem_mul
        (Language.append_mem_mul hletter (mem_signText_iff.2 ⟨s, rfl⟩))
        (mem_digitsText_iff.2 ⟨ds, hne, rfl⟩))

/-- A mantissa is split at its point, with a digit on one side of it at least. -/
theorem mem_mantissaText_iff {cs : List Char} :
    cs ∈ mantissaText ↔ ∃ whole : List Digit, ∃ fraction : Option (List Digit),
      whole ++ fraction.getD [] ≠ [] ∧ Digit.chars whole ++ fractionChars fraction = cs := by
  constructor
  · rintro ((h | h) | h)
    · obtain ⟨ds, hne, rfl⟩ := mem_digitsText_iff.1 h
      exact ⟨ds, none, by simpa using hne, List.append_nil _⟩
    · obtain ⟨_, hpoint, tail, htail, rfl⟩ := Language.mem_mul.1 h
      obtain ⟨digits, hdigits, point, rfl, rfl⟩ := Language.mem_mul.1 hpoint
      obtain ⟨ds, hne, rfl⟩ := mem_digitsText_iff.1 hdigits
      obtain ⟨es, rfl⟩ := mem_digitText_kstar_iff.1 htail
      exact ⟨ds, some es, by simp [hne], by simp [fractionChars]⟩
    · obtain ⟨point, rfl, digits, hdigits, rfl⟩ := Language.mem_mul.1 h
      obtain ⟨es, hne, rfl⟩ := mem_digitsText_iff.1 hdigits
      exact ⟨[], some es, by simpa using hne, rfl⟩
  · rintro ⟨whole, _ | es, hne, rfl⟩
    · refine Or.inl (Or.inl (mem_digitsText_iff.2 ⟨whole, ?_, (List.append_nil _).symm⟩))
      simpa using hne
    · rcases whole with _ | ⟨d, ds⟩
      · exact Or.inr (Language.append_mem_mul (a := ['.']) rfl
          (mem_digitsText_iff.2 ⟨es, hne, rfl⟩))
      · have hwhole : Digit.chars (d :: ds) ∈ digitsText :=
          mem_digitsText_iff.2 ⟨d :: ds, List.cons_ne_nil d ds, rfl⟩
        have hpoint : Digit.chars (d :: ds) ++ ['.'] ∈ digitsText * {['.']} :=
          Language.append_mem_mul hwhole rfl
        have htail := Language.append_mem_mul hpoint (mem_digitText_kstar_iff.2 ⟨es, rfl⟩)
        rw [List.append_assoc] at htail
        exact Or.inl (Or.inr htail)

/-- **The texts of numerals are those of the grammar.** -/
theorem mem_grammar_iff {cs : List Char} : cs ∈ grammar ↔ ∃ n : Numeral, n.chars = cs := by
  constructor
  · intro h
    obtain ⟨_, hfront, scale, hscale, rfl⟩ := Language.mem_mul.1 h
    obtain ⟨sign, hsign, mantissa, hmantissa, rfl⟩ := Language.mem_mul.1 hfront
    obtain ⟨s, rfl⟩ := mem_signText_iff.1 hsign
    obtain ⟨whole, fraction, hne, rfl⟩ := mem_mantissaText_iff.1 hmantissa
    obtain ⟨e, rfl⟩ := mem_scaleText_iff.1 hscale
    refine ⟨⟨s, whole, fraction, e, hne⟩, ?_⟩
    simp only [chars, List.append_assoc]
  · rintro ⟨⟨s, whole, fraction, e, hne⟩, rfl⟩
    have htext := Language.append_mem_mul
      (Language.append_mem_mul (mem_signText_iff.2 ⟨s, rfl⟩)
        (mem_mantissaText_iff.2 ⟨whole, fraction, hne, rfl⟩))
      (mem_scaleText_iff.2 ⟨e, rfl⟩)
    simpa only [chars, grammar, List.append_assoc] using htext

end Keypad.Numeral
