/-!
# Digit — decimal digits and the numbers that lists of them spell

A list of digits is read most significant first.  `Digit.value` is the number it spells and
`Digit.spell` the digits of a number; spelling then reading gives the number back
(`value_spell`), and only the number zero is spelled with a leading zero (`head?_spell`).
-/

namespace Keypad

/-- A decimal digit. -/
abbrev Digit := Fin 10

namespace Digit

/-! ## Characters -/

/-- The ASCII character of a digit. -/
def char (d : Digit) : Char := Nat.digitChar d

/-- The digit that a character stands for; only the ten ASCII digits stand for one. -/
def ofChar? (c : Char) : Option Digit :=
  if h : 48 ≤ c.toNat ∧ c.toNat ≤ 57 then some ⟨c.toNat - 48, by omega⟩ else none

@[simp] theorem ofChar?_char (d : Digit) : ofChar? d.char = some d := by
  revert d; decide

theorem char_of_ofChar? {c : Char} {d : Digit} (h : ofChar? c = some d) : d.char = c := by
  unfold ofChar? at h
  split at h
  · rename_i hc
    obtain rfl := Option.some.inj h
    have key : ∀ n, n < 58 → 48 ≤ n → Nat.digitChar (n - 48) = Char.ofNat n := by decide
    exact (key c.toNat (by omega) hc.1).trans (Char.ofNat_toNat c)
  · simp at h

/-- The characters of a list of digits. -/
def chars (ds : List Digit) : List Char := ds.map char

/-- A character that stands for no digit does not begin a list of digits. -/
theorem head?_chars_ne {c : Char} (h : ofChar? c = none) (ds : List Digit) :
    (chars ds).head? ≠ some c := by
  cases ds with
  | nil => simp [chars]
  | cons d ds =>
    rintro hc
    obtain rfl : d.char = c := by simpa [chars] using hc
    simp at h

/-- The digits at the front of a text, and the text after them. -/
def span : List Char → List Digit × List Char
  | [] => ([], [])
  | c :: rest =>
    match ofChar? c with
    | some d => (d :: (span rest).1, (span rest).2)
    | none => ([], c :: rest)

/-- **Nothing is lost**: the digits read, written out, and the rest make up the text. -/
theorem chars_span (cs : List Char) : chars (span cs).1 ++ (span cs).2 = cs := by
  induction cs with
  | nil => rfl
  | cons c rest ih =>
    unfold span
    split
    · rename_i d hd
      simpa [chars, char_of_ofChar? hd] using ih
    · rfl

/-- Written digits are read back, provided that no digit follows them. -/
theorem span_chars (ds : List Digit) {rest : List Char} (h : rest.head?.bind ofChar? = none) :
    span (chars ds ++ rest) = (ds, rest) := by
  induction ds with
  | nil =>
    cases rest with
    | nil => rfl
    | cons c rest =>
      have hc : ofChar? c = none := by simpa using h
      simp [chars, span, hc]
  | cons d ds ih =>
    have : span (chars ds ++ rest) = (ds, rest) := ih
    simp only [chars] at this
    simp [chars, span, this]

/-! ## Values -/

/-- The number that a list of digits spells. -/
def value (ds : List Digit) : Nat := ds.foldl (fun n d => 10 * n + d.val) 0

/-- The digits of a number, with no leading zero except for zero itself. -/
def spell (n : Nat) : List Digit :=
  if h : n < 10 then [⟨n, h⟩] else spell (n / 10) ++ [⟨n % 10, Nat.mod_lt n (by decide)⟩]
termination_by n

@[simp] theorem value_nil : value [] = 0 := rfl

theorem value_concat (ds : List Digit) (d : Digit) : value (ds ++ [d]) = 10 * value ds + d.val := by
  simp [value]

/-- **Spelling a number and reading it gives the number back.** -/
theorem value_spell (n : Nat) : value (spell n) = n := by
  fun_induction spell n with
  | case1 n h => simp [value]
  | case2 n h ih => rw [value_concat, ih]; exact Nat.div_add_mod n 10

theorem spell_ne_nil (n : Nat) : spell n ≠ [] := by
  fun_induction spell n with
  | case1 => simp
  | case2 => simp

/-- Only zero is spelled with a leading zero. -/
theorem head?_spell {n : Nat} (h : n ≠ 0) : (spell n).head? ≠ some 0 := by
  fun_induction spell n with
  | case1 n hn =>
    simp only [List.head?_cons, ne_eq, Option.some.injEq]
    exact fun e => h (congrArg Fin.val e)
  | case2 n hn ih =>
    obtain ⟨d, ds, hd⟩ := List.exists_cons_of_ne_nil (spell_ne_nil (n / 10))
    simpa [hd] using ih (by omega)

end Digit

end Keypad
