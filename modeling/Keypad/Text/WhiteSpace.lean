/-!
# Text/WhiteSpace — the Unicode property White_Space, and trimming by it

The table lists the ranges of the property, which covers 25 characters.  `trim` removes such
characters from both ends of a text and keeps all between (`exists_trim`, `trim_of_solid`).
-/

namespace Keypad.Text

/-- The code points of White_Space, as ranges with both ends included. -/
def whiteSpace : List (Nat × Nat) :=
  [(0x09, 0x0D), (0x20, 0x20), (0x85, 0x85), (0xA0, 0xA0), (0x1680, 0x1680), (0x2000, 0x200A),
    (0x2028, 0x2029), (0x202F, 0x202F), (0x205F, 0x205F), (0x3000, 0x3000)]

/-- Whether a character has the property White_Space. -/
def isWhiteSpace (c : Char) : Bool :=
  whiteSpace.any fun r => r.1 ≤ c.toNat && c.toNat ≤ r.2

/-- A text without the white space at its start. -/
def trimStart (cs : List Char) : List Char := cs.dropWhile isWhiteSpace

/-- A text without the white space at its two ends. -/
def trim (cs : List Char) : List Char := (trimStart (trimStart cs).reverse).reverse

/-- What is trimmed away at the start is white space. -/
theorem exists_trimStart (cs : List Char) :
    ∃ before, before.all isWhiteSpace ∧ cs = before ++ trimStart cs :=
  ⟨cs.takeWhile isWhiteSpace, List.all_takeWhile, List.takeWhile_append_dropWhile.symm⟩

/-- **What is trimmed away is white space at the two ends.** -/
theorem exists_trim (cs : List Char) :
    ∃ before after, before.all isWhiteSpace ∧ after.all isWhiteSpace ∧
      cs = before ++ trim cs ++ after := by
  obtain ⟨before, hb, eb⟩ := exists_trimStart cs
  obtain ⟨after, ha, ea⟩ := exists_trimStart (trimStart cs).reverse
  refine ⟨before, after.reverse, hb, by simpa using ha, ?_⟩
  have : trimStart cs = trim cs ++ after.reverse := by
    rw [← List.reverse_inj, ea]; simp [trim]
  rw [List.append_assoc, ← this]
  exact eb

/-- A text that neither starts nor ends in white space is kept as it is. -/
theorem trim_of_solid {cs : List Char} (hs : ∀ c ∈ cs.head?, isWhiteSpace c = false)
    (he : ∀ c ∈ cs.getLast?, isWhiteSpace c = false) : trim cs = cs := by
  have start : ∀ {l : List Char}, (∀ c ∈ l.head?, isWhiteSpace c = false) → trimStart l = l := by
    intro l h
    cases l with
    | nil => rfl
    | cons c l => simp [trimStart, h c (by simp)]
  rw [trim, start hs, start (by simpa using he), List.reverse_reverse]

end Keypad.Text
