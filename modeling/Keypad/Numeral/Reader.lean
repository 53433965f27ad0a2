import Keypad.Numeral.Basic

/-!
# Numeral/Reader — reading the text of a numeral

Reading accepts exactly the texts of numerals, and gives the numeral whose text it is
(`ofChars?_eq_some_iff`).
-/

namespace Keypad

namespace Sign

/-- The sign at the front of a text, if there is one, and the text after it. -/
def read : List Char → Option Sign × List Char
  | '+' :: rest => (some plus, rest)
  | '-' :: rest => (some minus, rest)
  | rest => (none, rest)

theorem chars_read (cs : List Char) : chars (read cs).1 ++ (read cs).2 = cs := by
  unfold read
  split <;> rfl

/-- A written sign is read back, and no sign is read where none is written. -/
theorem read_chars (s : Option Sign) {rest : List Char} (h : rest.head? ≠ some '+')
    (h' : rest.head? ≠ some '-') : read (chars s ++ rest) = (s, rest) := by
  rcases s with _ | (_ | _)
  · simp only [chars, Option.map_none, Option.toList_none, List.nil_append]
    unfold read
    split <;> simp_all
  · rfl
  · rfl

end Sign

/-- The exponent part that makes up a text, or nothing for the empty text; none if the text is
neither. -/
def Scale.ofChars? : List Char → Option (Option Scale)
  | [] => some none
  | c :: rest =>
    if c = 'e' ∨ c = 'E' then
      let afterSign := (Sign.read rest).2
      if h : (Digit.span afterSign).1 ≠ [] ∧ (Digit.span afterSign).2 = [] then
        some (some ⟨c = 'E', (Sign.read rest).1, (Digit.span afterSign).1, h.1⟩)
      else none
    else none

namespace Numeral

/-- The point and the digits after it at the front of a text, and the text after them. -/
def readFraction : List Char → Option (List Digit) × List Char
  | '.' :: rest => (some (Digit.span rest).1, (Digit.span rest).2)
  | rest => (none, rest)

/-- The numeral that a text spells; none if it spells no numeral. -/
def ofChars? (cs : List Char) : Option Numeral :=
  let afterSign := (Sign.read cs).2
  let whole := (Digit.span afterSign).1
  let afterWhole := (Digit.span afterSign).2
  let fraction := (readFraction afterWhole).1
  let afterFraction := (readFraction afterWhole).2
  if h : whole ++ fraction.getD [] ≠ [] then
    (Scale.ofChars? afterFraction).map fun scale =>
      ⟨(Sign.read cs).1, whole, fraction, scale, h⟩
  else none

/-! ## What is read is what was written -/

theorem chars_readFraction (cs : List Char) :
    fractionChars (readFraction cs).1 ++ (readFraction cs).2 = cs := by
  unfold readFraction
  split
  · rename_i rest
    exact congrArg ('.' :: ·) (Digit.chars_span rest)
  · rfl

theorem scaleChars_of_ofChars? {cs : List Char} {scale : Option Scale}
    (h : Scale.ofChars? cs = some scale) : scaleChars scale = cs := by
  unfold Scale.ofChars? at h
  split at h
  · obtain rfl := Option.some.inj h
    rfl
  · rename_i c rest
    split at h
    · rename_i hc
      simp only at h
      split at h
      · rename_i hd
        obtain rfl := Option.some.inj h
        have hdigits := Digit.chars_span (Sign.read rest).2
        rw [hd.2, List.append_nil] at hdigits
        simp only [scaleChars, Scale.chars, hdigits, Sign.chars_read]
        rcases hc with rfl | rfl <;> rfl
      · simp at h
    · simp at h

/-- The text of a numeral that is read is the text read. -/
theorem chars_of_ofChars? {cs : List Char} {n : Numeral} (h : ofChars? cs = some n) :
    n.chars = cs := by
  simp only [ofChars?] at h
  split at h
  · obtain ⟨scale, hscale, rfl⟩ := Option.map_eq_some_iff.1 h
    simp only [chars, scaleChars_of_ofChars? hscale, chars_readFraction, Digit.chars_span,
      Sign.chars_read]
  · simp at h

/-! ## What is written is read -/

theorem head?_scaleChars (scale : Option Scale) :
    (scaleChars scale).head? = none ∨ (scaleChars scale).head? = some 'e' ∨
      (scaleChars scale).head? = some 'E' := by
  rcases scale with _ | s
  · exact Or.inl rfl
  · cases hs : s.isCapital <;> simp [scaleChars, Scale.chars, hs]

/-- The text from the point on is empty or begins with the point or with a letter `e`. -/
theorem head?_fractionChars_append (fraction : Option (List Digit)) (scale : Option Scale) :
    (fractionChars fraction ++ scaleChars scale).head?.bind Digit.ofChar? = none := by
  rcases fraction with _ | ds
  · simp only [fractionChars, List.nil_append]
    rcases head?_scaleChars scale with h | h | h <;> rw [h] <;> decide
  · simp only [fractionChars, List.cons_append, List.head?_cons]
    decide

theorem ofChars?_scaleChars (scale : Option Scale) :
    Scale.ofChars? (scaleChars scale) = some scale := by
  rcases scale with _ | ⟨isCapital, sign, digits, hdigits⟩
  · rfl
  · have hsign := Sign.read_chars sign (Digit.head?_chars_ne (c := '+') (by decide) digits)
      (Digit.head?_chars_ne (by decide) digits)
    have hspan : Digit.span (Digit.chars digits ++ []) = (digits, []) :=
      Digit.span_chars digits rfl
    rw [List.append_nil] at hspan
    cases isCapital <;> simp [scaleChars, Scale.chars, Scale.ofChars?, hsign, hspan, hdigits]

theorem readFraction_append (fraction : Option (List Digit)) (scale : Option Scale) :
    readFraction (fractionChars fraction ++ scaleChars scale) = (fraction, scaleChars scale) := by
  rcases fraction with _ | ds
  · simp only [fractionChars, List.nil_append]
    unfold readFraction
    split
    · rename_i rest h
      have := head?_scaleChars scale
      simp [h] at this
    · rfl
  · have := head?_fractionChars_append none scale
    simp only [fractionChars, List.nil_append] at this
    simp [fractionChars, readFraction, Digit.span_chars ds this]

/-- **Reading the text of a numeral gives the numeral.** -/
theorem ofChars?_chars (n : Numeral) : ofChars? n.chars = some n := by
  obtain ⟨sign, whole, fraction, scale, hdigits⟩ := n
  have hwhole := Digit.span_chars whole (head?_fractionChars_append fraction scale)
  have hhead : ∀ c, Digit.ofChar? c = none → c ≠ '.' →
      (Digit.chars whole ++ (fractionChars fraction ++ scaleChars scale)).head? ≠ some c := by
    intro c hc hpoint
    rcases whole with _ | ⟨d, ds⟩
    · rcases fraction with _ | ds
      · exact absurd rfl hdigits
      · simpa [Digit.chars, fractionChars] using fun h => hpoint h.symm
    · have := Digit.head?_chars_ne hc (d :: ds)
      simpa [Digit.chars] using this
  have hsign := Sign.read_chars sign (hhead '+' (by decide) (by decide))
    (hhead '-' (by decide) (by decide))
  simp [ofChars?, chars, hsign, hwhole, readFraction_append, ofChars?_scaleChars, hdigits]

/-- **Reading accepts exactly what writing produces**, and each numeral for its own text only. -/
theorem ofChars?_eq_some_iff {cs : List Char} {n : Numeral} :
    ofChars? cs = some n ↔ n.chars = cs :=
  ⟨chars_of_ofChars?, fun h => h ▸ ofChars?_chars n⟩

end Numeral

end Keypad
