import Keypad.Proofs.Numeral.Value

/-!
# Proofs/Numeral/Significant — significant digits, and how many a number has

The significant digits of a list are those that are left when the zeros at both ends are taken away
(`Digit.significant`).  Zeros before them make no difference to the number spelled, and those after
them are powers of ten (`exists_value_eq`).  A list that does not begin with zero has as many digits
as its number has (`pow_le_value`, `value_lt`), so spelling a number takes no more digits than any
bound on the number allows (`length_spell_le`).
-/

namespace Keypad.Digit

/-! ## Zeros at the ends -/

/-- The digits begin with one that is not zero. -/
def LeadsWithoutZero (ds : List Digit) : Prop := ∃ d es, ds = d :: es ∧ d.val ≠ 0

/-- The digits end with one that is not zero. -/
def EndsWithoutZero (ds : List Digit) : Prop := ∃ es d, ds = es ++ [d] ∧ d.val ≠ 0

/-- The digits without the zeros at the two ends. -/
def significant (ds : List Digit) : List Digit :=
  (ds.dropWhile fun d => d.val = 0).rdropWhile fun d => d.val = 0

variable {ds : List Digit}

theorem LeadsWithoutZero.append (h : LeadsWithoutZero ds) (es : List Digit) :
    LeadsWithoutZero (ds ++ es) := by
  obtain ⟨d, ds, rfl, hd⟩ := h
  exact ⟨d, ds ++ es, rfl, hd⟩

theorem EndsWithoutZero.append (h : EndsWithoutZero ds) (es : List Digit) :
    EndsWithoutZero (es ++ ds) := by
  obtain ⟨ds, d, rfl, hd⟩ := h
  exact ⟨es ++ ds, d, (List.append_assoc es ds [d]).symm, hd⟩

theorem EndsWithoutZero.drop (h : EndsWithoutZero ds) {k : ℕ} (hk : k < ds.length) :
    EndsWithoutZero (ds.drop k) := by
  obtain ⟨ds, d, rfl, hd⟩ := h
  rw [List.length_append, List.length_singleton] at hk
  exact ⟨ds.drop k, d, List.drop_append_of_le_length (by omega), hd⟩

theorem LeadsWithoutZero.take (h : LeadsWithoutZero ds) {k : ℕ} (hk : k ≠ 0) :
    LeadsWithoutZero (ds.take k) := by
  obtain ⟨d, es, rfl, hd⟩ := h
  obtain ⟨k, rfl⟩ := Nat.exists_eq_succ_of_ne_zero hk
  exact ⟨d, es.take k, rfl, hd⟩

/-! ## Values -/

theorem value_cons (d : Digit) (ds : List Digit) :
    value (d :: ds) = d.val * 10 ^ ds.length + value ds := by
  have hone : value [d] = d.val := by simp [value]
  rw [← List.singleton_append, value_append, hone]

/-- A list of digits spells less than the power of ten of its length. -/
theorem value_lt (ds : List Digit) : value ds < 10 ^ ds.length := by
  induction ds with
  | nil => exact one_pos
  | cons d ds ih =>
    have hd := Nat.mul_le_mul_right (10 ^ ds.length) (Nat.le_of_lt_succ d.isLt)
    rw [value_cons, List.length_cons, pow_succ]
    omega

/-- Without a zero at its front it spells no less than the power of ten of its first place. -/
theorem pow_le_value (h : LeadsWithoutZero ds) : 10 ^ (ds.length - 1) ≤ value ds := by
  obtain ⟨d, es, rfl, hd⟩ := h
  rw [value_cons, List.length_cons, Nat.add_sub_cancel]
  exact (Nat.le_mul_of_pos_left _ (Nat.pos_of_ne_zero hd)).trans (Nat.le_add_right _ _)

theorem value_dropWhile (ds : List Digit) :
    value (ds.dropWhile fun d => d.val = 0) = value ds := by
  induction ds with
  | nil => rfl
  | cons d ds ih =>
    by_cases hd : d.val = 0
    · rw [List.dropWhile_cons_of_pos (by simpa using hd), ih, value_cons, hd, zero_mul, zero_add]
    · rw [List.dropWhile_cons_of_neg (by simpa using hd)]

/-- **Only powers of ten are lost** with the zeros at the ends. -/
theorem exists_value_eq (ds : List Digit) : ∃ k, value ds = value (significant ds) * 10 ^ k := by
  rw [significant, ← value_dropWhile]
  induction ds.dropWhile fun d => d.val = 0 using List.reverseRecOn with
  | nil => exact ⟨0, rfl⟩
  | append_singleton es d ih =>
    by_cases hd : d.val = 0
    · obtain ⟨k, hk⟩ := ih
      refine ⟨k + 1, ?_⟩
      rw [List.rdropWhile_concat_pos _ _ _ (by simpa using hd), value_concat, hk, hd, pow_succ]
      ring
    · refine ⟨0, ?_⟩
      rw [List.rdropWhile_concat_neg _ _ _ (by simpa using hd), pow_zero, mul_one]

theorem rdropWhile_append_zeros (ds : List Digit) (k : ℕ) :
    (ds ++ List.replicate k 0).rdropWhile (fun d => d.val = 0)
      = ds.rdropWhile fun d => d.val = 0 := by
  induction k with
  | zero => rw [List.replicate_zero, List.append_nil]
  | succ k ih =>
    rw [List.replicate_succ', ← List.append_assoc, List.rdropWhile_concat_pos _ _ _ (by simp), ih]

/-- **The significant digits are found** between zeros at the two ends. -/
theorem significant_eq (h : LeadsWithoutZero ds) (h' : EndsWithoutZero ds) (j k : ℕ) :
    significant (List.replicate j 0 ++ ds ++ List.replicate k 0) = ds := by
  obtain ⟨d, es, hds, hd⟩ := h
  obtain ⟨es', d', hds', hd'⟩ := h'
  have hfront : (List.replicate j 0 ++ ds ++ List.replicate k 0).dropWhile
      (fun d : Digit => d.val = 0) = ds ++ List.replicate k 0 := by
    rw [List.append_assoc, List.dropWhile_append_of_pos (by simp), hds, List.cons_append,
      List.dropWhile_cons_of_neg (by simpa using hd)]
  rw [significant, hfront, rdropWhile_append_zeros, hds',
    List.rdropWhile_concat_neg _ _ _ (by simpa using hd')]

/-! ## Spelling -/

theorem leadsWithoutZero_spell {n : ℕ} (h : n ≠ 0) : LeadsWithoutZero (spell n) := by
  obtain ⟨d, ds, hd⟩ := List.exists_cons_of_ne_nil (spell_ne_nil n)
  have hhead := head?_spell h
  rw [hd, List.head?_cons] at hhead
  exact ⟨d, ds, hd, fun h0 => hhead (congrArg some (Fin.ext h0))⟩

theorem endsWithoutZero_spell {n : ℕ} (h : n % 10 ≠ 0) : EndsWithoutZero (spell n) := by
  have hne : n ≠ 0 := fun h0 => h (congrArg (· % 10) h0)
  rw [spell]
  split
  · exact ⟨[], _, rfl, hne⟩
  · exact ⟨_, _, rfl, h⟩

theorem lt_pow_length_spell (n : ℕ) : n < 10 ^ (spell n).length := by
  simpa only [value_spell] using value_lt (spell n)

theorem pow_length_spell_le {n : ℕ} (h : n ≠ 0) : 10 ^ ((spell n).length - 1) ≤ n := by
  simpa only [value_spell] using pow_le_value (leadsWithoutZero_spell h)

theorem length_spell_pos (n : ℕ) : 0 < (spell n).length :=
  List.length_pos_of_ne_nil (spell_ne_nil n)

/-- **Spelling takes no more digits** than a bound on the number allows. -/
theorem length_spell_le {n k : ℕ} (h : n ≠ 0) (hk : n < 10 ^ k) : (spell n).length ≤ k := by
  have hlt := (Nat.pow_lt_pow_iff_right (by norm_num)).1 ((pow_length_spell_le h).trans_lt hk)
  omega

end Keypad.Digit
