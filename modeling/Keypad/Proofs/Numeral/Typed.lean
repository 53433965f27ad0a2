import Keypad.Proofs.Numeral.Point

/-!
# Proofs/Numeral/Typed — the texts that digit and point keys write

`Numeral.typedText` is the language

    D+ ('.' D*)?

of the texts that can be typed from nothing with digits, one point and removals at the end.  Each of
them is the text of a numeral without sign and exponent part (`exists_numeral_of_mem_typedText`).
-/

namespace Keypad

theorem Digit.chars_concat (ds : List Digit) (d : Digit) :
    chars (ds ++ [d]) = chars ds ++ [d.char] := List.map_append

namespace Numeral

open scoped Computability

variable {cs : List Char}

/-- Digits, one at least, and behind them a point with further digits or none, which may be left
out. -/
def typedText : Language Char := digitsText * (1 + {['.']} * digitText∗)

theorem mem_typedText_iff :
    cs ∈ typedText ↔ ∃ whole : List Digit, ∃ fraction : Option (List Digit),
      whole ≠ [] ∧ Digit.chars whole ++ fractionChars fraction = cs := by
  constructor
  · intro h
    obtain ⟨_, hwhole, _, htail, rfl⟩ := Language.mem_mul.1 h
    obtain ⟨whole, hne, rfl⟩ := mem_digitsText_iff.1 hwhole
    obtain rfl | htail := htail
    · exact ⟨whole, none, hne, rfl⟩
    · obtain ⟨_, rfl, _, hfraction, rfl⟩ := Language.mem_mul.1 htail
      obtain ⟨ds, rfl⟩ := mem_digitText_kstar_iff.1 hfraction
      exact ⟨whole, some ds, hne, rfl⟩
  · rintro ⟨whole, fraction, hne, rfl⟩
    refine Language.append_mem_mul (mem_digitsText_iff.2 ⟨whole, hne, rfl⟩) ?_
    match fraction with
    | none => exact Or.inl rfl
    | some ds =>
      exact Or.inr (Language.append_mem_mul (a := ['.']) rfl
        (mem_digitText_kstar_iff.2 ⟨ds, rfl⟩))

/-- What is typed is the text of a numeral. -/
theorem exists_numeral_of_mem_typedText (h : cs ∈ typedText) :
    ∃ n : Numeral, n.sign = none ∧ n.scale = none ∧ n.chars = cs := by
  obtain ⟨whole, fraction, hne, rfl⟩ := mem_typedText_iff.1 h
  refine ⟨⟨none, whole, fraction, none, List.append_ne_nil_of_left_ne_nil hne _⟩, rfl, rfl, ?_⟩
  rw [chars, scaleChars, List.append_nil]
  rfl

/-! ## Keys at the end of a text -/

/-- Nothing is typed yet, or a text that can be typed. -/
def IsTyped (cs : List Char) : Prop := cs = [] ∨ cs ∈ typedText

/-- A digit goes to the digits after the point, if there is one. -/
theorem IsTyped.concat_digit (h : IsTyped cs) (d : Digit) : IsTyped (cs ++ [d.char]) := by
  refine Or.inr (mem_typedText_iff.2 ?_)
  obtain rfl | h := h
  · exact ⟨[d], none, List.cons_ne_nil d [], rfl⟩
  · obtain ⟨whole, _ | ds, hne, rfl⟩ := mem_typedText_iff.1 h
    · refine ⟨whole ++ [d], none, List.concat_ne_nil d whole, ?_⟩
      rw [Digit.chars_concat, fractionChars, List.append_nil, List.append_nil]
    · refine ⟨whole, some (ds ++ [d]), hne, ?_⟩
      rw [fractionChars, fractionChars, Digit.chars_concat, List.append_assoc, List.cons_append]

/-- The first point comes right after the digits, if there are any. -/
theorem IsTyped.concat_point (h : IsTyped cs) (hne : cs ≠ []) (hpoint : '.' ∉ cs) :
    IsTyped (cs ++ ['.']) := by
  obtain ⟨whole, _ | ds, hwhole, rfl⟩ := mem_typedText_iff.1 (h.resolve_left hne)
  · refine Or.inr (mem_typedText_iff.2 ⟨whole, some [], hwhole, ?_⟩)
    rw [fractionChars, List.append_nil]
    rfl
  · exact absurd (List.mem_append_right _ List.mem_cons_self) hpoint

/-- What is left without the last character could have been typed without it. -/
theorem IsTyped.dropLast (h : IsTyped cs) : IsTyped cs.dropLast := by
  obtain rfl | h := h
  · exact Or.inl rfl
  obtain ⟨whole, fraction, hne, rfl⟩ := mem_typedText_iff.1 h
  match fraction with
  | none =>
    obtain rfl | ⟨ds, d, rfl⟩ := List.eq_nil_or_concat' whole
    · exact absurd rfl hne
    · rw [fractionChars, List.append_nil, Digit.chars_concat, List.dropLast_concat]
      obtain rfl | hds := eq_or_ne ds []
      · exact Or.inl rfl
      · exact Or.inr (mem_typedText_iff.2 ⟨ds, none, hds, List.append_nil _⟩)
  | some fs =>
    obtain rfl | ⟨ds, d, rfl⟩ := List.eq_nil_or_concat' fs
    · rw [fractionChars]
      change IsTyped (Digit.chars whole ++ ['.']).dropLast
      rw [List.dropLast_concat]
      exact Or.inr (mem_typedText_iff.2 ⟨whole, none, hne, List.append_nil _⟩)
    · rw [fractionChars, Digit.chars_concat, ← List.cons_append, ← List.append_assoc,
        List.dropLast_concat]
      exact Or.inr (mem_typedText_iff.2 ⟨whole, some ds, hne, rfl⟩)

end Numeral

end Keypad
