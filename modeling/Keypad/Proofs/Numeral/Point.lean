import Keypad.Proofs.Numeral.Grammar
import Keypad.Proofs.Numeral.Text

/-!
# Proofs/Numeral/Point — where a point may be written

A numeral has one point at most (`count_point_chars`).  At the end of a numeral without an exponent
part a point makes no difference to what is read (`chars_withPoint`), and neither does a zero before
a point that comes first (`decimal_led`).  After an exponent part a point makes the text unreadable
(`ofChars?_concat_point`).
-/

namespace Keypad

theorem Digit.spell_zero : spell 0 = [0] := by
  rw [spell]
  rfl

theorem Digit.char_ne_point (d : Digit) : d.char ≠ '.' := by
  revert d
  decide

namespace Numeral

/-! ## The point among the characters -/

theorem point_not_mem_digits (ds : List Digit) : '.' ∉ Digit.chars ds :=
  Digit.not_mem_chars (by decide) ds

theorem point_not_mem_sign (s : Option Sign) : '.' ∉ Sign.chars s := by
  match s with
  | none => decide
  | some .plus => decide
  | some .minus => decide

theorem point_not_mem_scaleChars (scale : Option Scale) : '.' ∉ scaleChars scale := by
  intro h
  match scale with
  | none => cases h
  | some s =>
    rcases List.mem_cons.1 h with hletter | h
    · revert hletter
      cases s.isCapital <;> decide
    · rcases List.mem_append.1 h with h | h
      · exact point_not_mem_sign _ h
      · exact point_not_mem_digits _ h

/-- The point stands before the digits after it, or is not written. -/
theorem count_point_fractionChars (fraction : Option (List Digit)) :
    (fractionChars fraction).count '.' = if fraction = none then 0 else 1 := by
  match fraction with
  | none => rfl
  | some ds =>
    rw [fractionChars, List.count_cons_self, List.count_eq_zero.2 (point_not_mem_digits ds),
      if_neg (Option.some_ne_none ds)]

/-- A numeral has its point and no other. -/
theorem count_point_chars (n : Numeral) :
    n.chars.count '.' = if n.fraction = none then 0 else 1 := by
  rw [chars, List.count_append, List.count_append, List.count_append,
    count_point_fractionChars, List.count_eq_zero.2 (point_not_mem_sign _),
    List.count_eq_zero.2 (point_not_mem_digits _),
    List.count_eq_zero.2 (point_not_mem_scaleChars _), zero_add, zero_add, add_zero]

theorem fraction_eq_none_of_not_mem {n : Numeral} (h : '.' ∉ n.chars) : n.fraction = none := by
  by_contra hfraction
  have hcount := n.count_point_chars
  rw [List.count_eq_zero.2 h, if_neg hfraction] at hcount
  exact absurd hcount zero_ne_one

/-! ## A point at the end -/

/-- The numeral with its point written. -/
def withPoint (n : Numeral) : Numeral :=
  { n with
    fraction := some (n.fraction.getD [])
    digits_ne_nil := n.digits_ne_nil }

/-- **A point without digits after it makes no difference.** -/
theorem toBinary64?_withPoint (n : Numeral) : n.withPoint.toBinary64? = n.toBinary64? := rfl

theorem chars_withPoint {n : Numeral} (hfraction : n.fraction = none) (hscale : n.scale = none) :
    n.withPoint.chars = n.chars ++ ['.'] := by
  simp only [chars, withPoint, hfraction, hscale, fractionChars, scaleChars, Option.getD_none,
    Digit.chars, List.map_nil, List.append_nil, List.append_assoc]

/-! ## A point after an exponent part -/

/-- The text of an exponent part ends in a digit. -/
theorem exists_chars_eq_concat (s : Scale) : ∃ cs, ∃ d : Digit, s.chars = cs ++ [d.char] := by
  obtain hnil | ⟨ds, d, hds⟩ := List.eq_nil_or_concat' s.digits
  · exact absurd hnil s.digits_ne_nil
  · refine ⟨(if s.isCapital then 'E' else 'e') :: (Sign.chars s.sign ++ Digit.chars ds), d, ?_⟩
    rw [Scale.chars, hds, Digit.chars, List.map_append, List.cons_append, List.append_assoc]
    rfl

/-- A numeral that ends in its point has no exponent part. -/
theorem scale_eq_none_of_chars_eq_concat {n : Numeral} {cs : List Char}
    (h : n.chars = cs ++ ['.']) : n.scale = none := by
  by_contra hscale
  obtain ⟨s, hs⟩ := Option.ne_none_iff_exists'.1 hscale
  obtain ⟨ds, d, hd⟩ := exists_chars_eq_concat s
  rw [chars, hs, scaleChars, hd, ← List.append_assoc, ← List.append_assoc,
    ← List.append_assoc] at h
  exact Digit.char_ne_point d (List.singleton_inj.1 (List.append_inj_right' h rfl))

/-- Without an exponent part a numeral holds no letter. -/
theorem letter_not_mem_chars {n : Numeral} (h : n.scale = none) (isCapital : Bool) :
    (if isCapital then 'E' else 'e') ∉ n.chars := by
  have hdigits : ∀ ds, (if isCapital then 'E' else 'e') ∉ Digit.chars ds :=
    Digit.not_mem_chars (by cases isCapital <;> decide)
  have hsign : (if isCapital then 'E' else 'e') ∉ Sign.chars n.sign := by
    match n.sign with
    | none => cases isCapital <;> decide
    | some .plus => cases isCapital <;> decide
    | some .minus => cases isCapital <;> decide
  have hfraction : (if isCapital then 'E' else 'e') ∉ fractionChars n.fraction := by
    match n.fraction with
    | none => exact List.not_mem_nil
    | some ds =>
      rw [fractionChars, List.mem_cons, not_or]
      exact ⟨by cases isCapital <;> decide, hdigits ds⟩
  rw [chars, h, scaleChars, List.append_nil, List.mem_append, List.mem_append, not_or, not_or]
  exact ⟨hsign, hdigits _, hfraction⟩

/-- **No numeral is one with an exponent part and a point after it.** -/
theorem ofChars?_concat_point {n : Numeral} (h : n.scale ≠ none) :
    ofChars? (n.chars ++ ['.']) = none := by
  refine Option.eq_none_iff_forall_ne_some.2 fun n' hn' => ?_
  have hchars : n'.chars = n.chars ++ ['.'] := chars_of_ofChars? hn'
  obtain ⟨s, hs⟩ := Option.ne_none_iff_exists'.1 h
  refine letter_not_mem_chars (scale_eq_none_of_chars_eq_concat hchars) s.isCapital ?_
  rw [hchars, chars, hs, scaleChars, Scale.chars]
  simp

/-! ## A zero before the point -/

/-- The numeral with a zero before a point that comes first. -/
def led (n : Numeral) : Numeral :=
  { n with
    whole := if n.whole = [] then Digit.spell 0 else n.whole
    digits_ne_nil := by
      split
      · exact List.append_ne_nil_of_left_ne_nil (Digit.spell_ne_nil 0) _
      · exact n.digits_ne_nil }

/-- **The zero before the point makes no difference.** -/
theorem decimal_led (n : Numeral) : n.led.decimal = n.decimal := by
  have hvalue : Digit.value n.led.digits = Digit.value n.digits := by
    change Digit.value ((if n.whole = [] then Digit.spell 0 else n.whole) ++ n.fraction.getD [])
      = Digit.value (n.whole ++ n.fraction.getD [])
    split
    · rename_i h
      rw [h, Digit.spell_zero]
      rfl
    · rfl
  rw [decimal, decimal, hvalue]
  rfl

theorem toBinary64?_led (n : Numeral) : n.led.toBinary64? = n.toBinary64? := by
  rw [toBinary64?, toBinary64?, decimal_led]
  rfl

end Numeral

end Keypad
