import Keypad.Binary64.Text

/-!
# Proofs/Numeral/Text — the text of a numeral is read as that numeral

The text of a numeral holds digits and a few signs only, so there is no white space in it to trim,
and it is none of the words for the other numbers.  Hence reading such a text gives the numeral's
own value (`ofText?_chars`).
-/

namespace Keypad

/-- A character of a text without white space is none. -/
theorem Text.isWhiteSpace_of_mem {cs : List Char} {c : Char} (h : cs.any isWhiteSpace = false)
    (hc : c ∈ cs) : isWhiteSpace c = false :=
  Bool.eq_false_iff.2 fun hspace =>
    Bool.eq_false_iff.1 h (List.any_eq_true.2 ⟨c, hc, hspace⟩)

/-! ## The characters of a numeral -/

theorem Digit.not_mem_chars {c : Char} (h : ofChar? c = none) (ds : List Digit) :
    c ∉ chars ds := by
  intro hmem
  obtain ⟨d, -, rfl⟩ := List.mem_map.1 hmem
  rw [ofChar?_char] at h
  cases h

namespace Numeral

/-- The characters that a numeral may hold beside digits. -/
def signs : List Char := ['+', '-', '.', 'e', 'E']

/-- A character that a numeral may hold. -/
def IsNumeralChar (c : Char) : Prop := (∃ d : Digit, d.char = c) ∨ c ∈ signs

theorem isNumeralChar_of_mem_digits {ds : List Digit} {c : Char} (h : c ∈ Digit.chars ds) :
    IsNumeralChar c := by
  obtain ⟨d, -, hd⟩ := List.mem_map.1 h
  exact Or.inl ⟨d, hd⟩

theorem isNumeralChar_of_mem_sign {s : Option Sign} {c : Char} (h : c ∈ Sign.chars s) :
    IsNumeralChar c := by
  rcases s with _ | (_ | _)
  · cases h
  · obtain rfl := List.mem_singleton.1 h
    exact Or.inr (by decide)
  · obtain rfl := List.mem_singleton.1 h
    exact Or.inr (by decide)

theorem isNumeralChar_of_mem_fractionChars {fraction : Option (List Digit)} {c : Char}
    (h : c ∈ fractionChars fraction) : IsNumeralChar c := by
  rcases fraction with _ | ds
  · cases h
  · rcases List.mem_cons.1 h with rfl | h
    · exact Or.inr (by decide)
    · exact isNumeralChar_of_mem_digits h

theorem isNumeralChar_of_mem_scaleChars {scale : Option Scale} {c : Char}
    (h : c ∈ scaleChars scale) : IsNumeralChar c := by
  rcases scale with _ | ⟨isCapital, sign, digits, hdigits⟩
  · cases h
  · rcases List.mem_cons.1 h with rfl | h
    · rcases isCapital with _ | _
      · exact Or.inr (show 'e' ∈ signs by decide)
      · exact Or.inr (show 'E' ∈ signs by decide)
    · rcases List.mem_append.1 h with h | h
      · exact isNumeralChar_of_mem_sign h
      · exact isNumeralChar_of_mem_digits h

theorem isNumeralChar_of_mem_chars {n : Numeral} {c : Char} (h : c ∈ n.chars) :
    IsNumeralChar c := by
  simp only [chars, List.mem_append] at h
  rcases h with h | h | h | h
  · exact isNumeralChar_of_mem_sign h
  · exact isNumeralChar_of_mem_digits h
  · exact isNumeralChar_of_mem_fractionChars h
  · exact isNumeralChar_of_mem_scaleChars h

theorem isWhiteSpace_of_isNumeralChar {c : Char} (h : IsNumeralChar c) :
    Text.isWhiteSpace c = false := by
  have hdigit : ∀ d : Digit, Text.isWhiteSpace d.char = false := by decide
  have hsign : signs.any Text.isWhiteSpace = false := by decide
  rcases h with ⟨d, rfl⟩ | h
  · exact hdigit d
  · exact Text.isWhiteSpace_of_mem hsign h

/-- **The text of a numeral has no white space to trim.** -/
@[simp] theorem trim_chars (n : Numeral) : Text.trim n.chars = n.chars :=
  Text.trim_of_solid
    (fun _ hc => isWhiteSpace_of_isNumeralChar
      (isNumeralChar_of_mem_chars (List.mem_of_mem_head? hc)))
    (fun _ hc => isWhiteSpace_of_isNumeralChar
      (isNumeralChar_of_mem_chars (List.mem_of_getLast? hc)))

/-- A text that spells no numeral is not the text of one. -/
theorem chars_ne_of_ofChars? {cs : List Char} (h : ofChars? cs = none) (n : Numeral) :
    n.chars ≠ cs := by
  rintro rfl
  rw [ofChars?_chars] at h
  cases h

end Numeral

/-! ## Reading -/

namespace Binary64

open Numeral

theorem ofChars?_nanWord : ofChars? nanWord.toList = none := by decide +kernel

theorem ofChars?_infinityWord (negative : Bool) :
    ofChars? (infinityWord negative).toList = none := by
  cases negative <;> decide +kernel

/-- A numeral without white space around it is read as its own value. -/
theorem ofSolidText?_chars (n : Numeral) : ofSolidText? n.chars = n.toBinary64? := by
  rw [ofSolidText?, if_neg (chars_ne_of_ofChars? ofChars?_nanWord n),
    if_neg (chars_ne_of_ofChars? (ofChars?_infinityWord false) n),
    if_neg (chars_ne_of_ofChars? (ofChars?_infinityWord true) n), ofChars?_chars]
  rfl

/-- **The text of a numeral is read as the numeral's value.** -/
theorem ofText?_chars (n : Numeral) : ofText? (String.ofList n.chars) = n.toBinary64? := by
  rw [ofText?, String.toList_ofList, trim_chars, ofSolidText?_chars]

end Binary64

end Keypad
