import Keypad.Proofs.Binary64.Monotone
import Keypad.Proofs.Binary64.RoundTrip
import Keypad.Proofs.Numeral.Significant

/-!
# Proofs/Decimal/Shortest — no decimal of fewer digits rounds to the magnitude

At a cut that leaves `k` digits, no decimal of `k` digits lies strictly between the two neighbours
(`value_le_cut_or_succ_cut_le`).  So if any decimal of `k` digits rounds to the magnitude, a
neighbour does, as rounding leaves no gap; and a neighbour is the nearer of the two.  Hence the
search finds the fewest digits (`length_shortest_le`) and, with that many digits, a decimal than
which none is nearer (`abs_shortest_sub_le`).
-/

namespace Keypad.Decimal

variable {m : Magnitude} {d e : Decimal} {p : ℕ}

/-! ## The neighbours at a cut -/

/-- What is cut off, as a number. -/
theorem value_eq_cut_add (d : Decimal) (p : ℕ) :
    d.value = (d.cut p).value + (d.coefficient % 10 ^ p : ℕ) * 10 ^ d.exponent := by
  have hdiv := congrArg (Nat.cast (R := ℚ)) (Nat.div_add_mod d.coefficient (10 ^ p))
  rw [Nat.cast_add, Nat.cast_mul] at hdiv
  rw [value, value, cut, zpow_add₀ (by norm_num), zpow_natCast, ← hdiv]
  push_cast [Nat.pow_eq]
  ring

/-- The neighbours are one step of the cut's last place apart. -/
theorem value_succ_cut (d : Decimal) (p : ℕ) :
    (d.cut p).succ.value = (d.cut p).value + (10 ^ p : ℕ) * 10 ^ d.exponent := by
  rw [value, value, succ, cut, zpow_add₀ (by norm_num), zpow_natCast]
  push_cast
  ring

theorem value_cut_le (d : Decimal) (p : ℕ) : (d.cut p).value ≤ d.value := by
  rw [value_eq_cut_add d p]
  exact le_add_of_nonneg_right (by positivity)

theorem value_le_succ_cut (d : Decimal) (p : ℕ) : d.value ≤ (d.cut p).succ.value := by
  have hmod : ((d.coefficient % 10 ^ p : ℕ) : ℚ) ≤ (10 ^ p : ℕ) :=
    Nat.cast_le.2 (Nat.mod_lt _ (by positivity)).le
  rw [value_eq_cut_add d p, value_succ_cut]
  exact add_le_add_right (mul_le_mul_of_nonneg_right hmod (by positivity)) _

/-- How far a decimal is above its cut. -/
theorem abs_cut_sub (d : Decimal) (p : ℕ) :
    |(d.cut p).value - d.value| = (d.coefficient % 10 ^ p : ℕ) * 10 ^ d.exponent := by
  rw [abs_sub_comm, abs_of_nonneg (sub_nonneg.2 (value_cut_le d p)), value_eq_cut_add d p,
    add_sub_cancel_left]

/-- How far a decimal is below the successor of its cut. -/
theorem abs_succ_cut_sub (d : Decimal) (p : ℕ) :
    |(d.cut p).succ.value - d.value|
      = ((10 ^ p : ℕ) - (d.coefficient % 10 ^ p : ℕ)) * 10 ^ d.exponent := by
  rw [abs_of_nonneg (sub_nonneg.2 (value_le_succ_cut d p)), value_eq_cut_add d p, value_succ_cut,
    add_sub_add_left_eq_sub, sub_mul]

theorem abs_cut_sub_le_iff (d : Decimal) (p : ℕ) :
    |(d.cut p).value - d.value| ≤ |(d.cut p).succ.value - d.value| ↔
      2 * (d.coefficient % 10 ^ p) ≤ 10 ^ p := by
  rw [abs_cut_sub, abs_succ_cut_sub, mul_le_mul_iff_of_pos_right (by positivity), le_sub_iff_add_le,
    ← two_mul]
  exact_mod_cast Iff.rfl

theorem abs_succ_cut_sub_le_iff (d : Decimal) (p : ℕ) :
    |(d.cut p).succ.value - d.value| ≤ |(d.cut p).value - d.value| ↔
      10 ^ p ≤ 2 * (d.coefficient % 10 ^ p) := by
  rw [abs_cut_sub, abs_succ_cut_sub, mul_le_mul_iff_of_pos_right (by positivity), sub_le_iff_le_add,
    ← two_mul]
  exact_mod_cast Iff.rfl

/-- A cut has no more digits than are left. -/
theorem coefficient_cut_lt (hp : p ≤ (Digit.spell d.coefficient).length) :
    (d.cut p).coefficient < 10 ^ ((Digit.spell d.coefficient).length - p) := by
  refine Nat.div_lt_of_lt_mul ?_
  rw [Nat.pow_eq, ← pow_add, Nat.add_sub_of_le hp]
  exact Digit.lt_pow_length_spell _

/-- A cut has all the digits that are left. -/
theorem pow_le_coefficient_cut (hd : d.coefficient ≠ 0)
    (hp : p < (Digit.spell d.coefficient).length) :
    10 ^ ((Digit.spell d.coefficient).length - p - 1) ≤ (d.cut p).coefficient := by
  have hexp : (Digit.spell d.coefficient).length - p - 1 + p
      = (Digit.spell d.coefficient).length - 1 := by omega
  rw [cut, Nat.pow_eq, Nat.le_div_iff_mul_le (by positivity), ← pow_add, hexp]
  exact Digit.pow_length_spell_le hd

/-- A decimal on the grid of a cut is no higher than the cut or no lower than its successor. -/
theorem value_le_cut_or_succ_cut_le_of_grid {t : Decimal} (h : d.exponent + p ≤ t.exponent) :
    t.value ≤ (d.cut p).value ∨ (d.cut p).succ.value ≤ t.value := by
  obtain ⟨j, hj⟩ := Int.le.dest h
  have hvalue : t.value = (t.coefficient * 10 ^ j : ℕ) * 10 ^ (d.exponent + p) := by
    rw [value, ← hj, zpow_add₀ (by norm_num) _ (j : ℤ), zpow_natCast]
    push_cast
    ring
  have hpos : (0 : ℚ) < 10 ^ (d.exponent + p) := by positivity
  rw [hvalue]
  rcases Nat.lt_or_ge (d.cut p).coefficient (t.coefficient * 10 ^ j) with hgt | hle
  · exact Or.inr (mul_le_mul_of_nonneg_right (Nat.cast_le.2 hgt) hpos.le)
  · exact Or.inl (mul_le_mul_of_nonneg_right (Nat.cast_le.2 hle) hpos.le)

/-- **No decimal of as many digits as are left lies between the neighbours.**  On a finer grid it
has fewer places before the last one of the cut. -/
theorem value_le_cut_or_succ_cut_le (hd : d.coefficient ≠ 0)
    (hp : p < (Digit.spell d.coefficient).length) {t : Decimal}
    (ht : t.coefficient < 10 ^ ((Digit.spell d.coefficient).length - p)) :
    t.value ≤ (d.cut p).value ∨ (d.cut p).succ.value ≤ t.value := by
  rcases le_or_gt (d.exponent + p) t.exponent with hgrid | hfine
  · exact value_le_cut_or_succ_cut_le_of_grid hgrid
  · left
    have hcut := pow_le_coefficient_cut hd hp
    have hcoeff : t.coefficient ≤ 10 * (d.cut p).coefficient := by
      have hexp : (Digit.spell d.coefficient).length - p
          = (Digit.spell d.coefficient).length - p - 1 + 1 := by omega
      rw [hexp, pow_succ] at ht
      omega
    calc t.value ≤ t.coefficient * 10 ^ (d.exponent + p - 1) :=
          mul_le_mul_of_nonneg_left (zpow_le_zpow_right₀ (by norm_num) (by omega)) (by positivity)
      _ ≤ (10 * (d.cut p).coefficient : ℕ) * 10 ^ (d.exponent + p - 1) :=
          mul_le_mul_of_nonneg_right (Nat.cast_le.2 hcoeff) (by positivity)
      _ = (d.cut p).value := by
          rw [value, zpow_sub_one₀ (by norm_num), cut]
          push_cast
          ring

/-! ## The neighbour that is taken -/

/-- The neighbour below is taken if the decimal is nearer to it or the one above does not round to
the magnitude, the neighbour above likewise. -/
theorem eq_of_neighbour? (h : neighbour? m d p = some e) :
    e = d.cut p ∧ ((d.cut p).succ.nearest? = some m → d.isBelowHalf p = true) ∨
      e = (d.cut p).succ ∧ ((d.cut p).nearest? = some m → ¬ d.isBelowHalf p = true) := by
  simp only [neighbour?] at h
  split at h
  · rename_i hlower
    exact Or.inl ⟨(Option.some.inj h).symm, fun hupper => hlower.2.resolve_right (not_not.2 hupper)⟩
  · rename_i hlower
    split at h
    · exact Or.inr ⟨(Option.some.inj h).symm, fun hfits hbelow => hlower ⟨hfits, Or.inl hbelow⟩⟩
    · cases h

theorem neighbour?_ne_none
    (h : (d.cut p).nearest? = some m ∨ (d.cut p).succ.nearest? = some m) :
    neighbour? m d p ≠ none := by
  simp only [neighbour?]
  split
  · exact Option.some_ne_none _
  · rename_i hlower
    rw [if_pos]
    · exact Option.some_ne_none _
    · by_contra hupper
      exact hlower ⟨h.resolve_right hupper, Or.inr hupper⟩

/-- Rounding leaves no gap: a neighbour between two decimals that round to the magnitude does. -/
theorem cut_or_succ_cut_fits {t : Decimal} (hd : d.nearest? = some m) (ht : t.nearest? = some m) :
    (t.value ≤ (d.cut p).value → (d.cut p).nearest? = some m) ∧
      ((d.cut p).succ.value ≤ t.value → (d.cut p).succ.nearest? = some m) := by
  rw [nearest?_eq_some_iff] at hd ht
  simp only [nearest?_eq_some_iff]
  exact ⟨fun hle => ht.of_le_of_le hd hle (value_cut_le d p),
    fun hle => hd.of_le_of_le ht (value_le_succ_cut d p) hle⟩

/-- **The neighbour taken is nearer than any decimal beyond the neighbours.** -/
theorem abs_neighbour_sub_le {t : Decimal} (h : neighbour? m d p = some e)
    (hd : d.nearest? = some m) (ht : t.nearest? = some m)
    (hside : t.value ≤ (d.cut p).value ∨ (d.cut p).succ.value ≤ t.value) :
    |e.value - d.value| ≤ |t.value - d.value| := by
  obtain ⟨hlower, hupper⟩ := cut_or_succ_cut_fits (p := p) hd ht
  have hcut := value_cut_le d p
  have hsucc := value_le_succ_cut d p
  rcases hside with hle | hle
  · have hfar : |(d.cut p).value - d.value| ≤ |t.value - d.value| := by
      rw [abs_of_nonpos (by linarith), abs_of_nonpos (by linarith)]
      linarith
    refine le_trans ?_ hfar
    rcases eq_of_neighbour? h with ⟨rfl, -⟩ | ⟨rfl, habove⟩
    · exact le_rfl
    · rw [abs_succ_cut_sub_le_iff]
      exact not_lt.1 fun hlt => habove (hlower hle) (decide_eq_true hlt)
  · have hfar : |(d.cut p).succ.value - d.value| ≤ |t.value - d.value| := by
      rw [abs_of_nonneg (by linarith), abs_of_nonneg (by linarith)]
      linarith
    refine le_trans ?_ hfar
    rcases eq_of_neighbour? h with ⟨rfl, hbelow⟩ | ⟨rfl, -⟩
    · rw [abs_cut_sub_le_iff]
      exact (of_decide_eq_true (hbelow (hupper hle))).le
    · exact le_rfl

/-! ## The search -/

/-- The search ends at a cut, where it takes a neighbour, or without one at no cut; none is taken at
the cuts before. -/
theorem exists_firstNeighbour (m : Magnitude) (d : Decimal) (places : ℕ) :
    ∃ p ≤ places, (∀ q, p < q → q ≤ places → neighbour? m d q = none) ∧
      (neighbour? m d p = some (firstNeighbour m d places) ∨
        p = 0 ∧ firstNeighbour m d places = d) := by
  induction places with
  | zero => exact ⟨0, le_rfl, fun q hq hq' => absurd hq hq'.not_gt, Or.inr ⟨rfl, rfl⟩⟩
  | succ places ih =>
    rw [firstNeighbour]
    cases hn : neighbour? m d (places + 1) with
    | some e =>
      exact ⟨places + 1, le_rfl, fun q hq hq' => absurd hq hq'.not_gt, Or.inl hn⟩
    | none =>
      obtain ⟨p, hp, hbefore, hend⟩ := ih
      refine ⟨p, hp.trans (Nat.le_succ _), fun q hq hq' => ?_, hend⟩
      rcases Nat.lt_or_eq_of_le hq' with hlt | rfl
      · exact hbefore q hq (Nat.le_of_lt_succ hlt)
      · exact hn

theorem cut_zero (d : Decimal) : d.cut 0 = d := by
  simp [cut]

/-- A decimal that does not round to zero has a coefficient. -/
theorem coefficient_ne_zero (hm : m ≠ Magnitude.zero) (h : d.nearest? = some m) :
    d.coefficient ≠ 0 := by
  intro h0
  rw [nearest?, if_pos h0] at h
  exact hm (Option.some.inj h).symm

/-- A coefficient up to a power of ten has no more digits than the power has zeros, trailing zeros
aside; the power itself is a one with trailing zeros. -/
theorem length_spell_normalize_le {k : ℕ} (h0 : d.coefficient ≠ 0) (hk : k ≠ 0)
    (h : d.coefficient ≤ 10 ^ k) : (Digit.spell d.normalize.coefficient).length ≤ k := by
  obtain ⟨j, hcoeff, -⟩ := exists_normalize d
  have hmod := normalize_coefficient_mod d h0
  have hle : d.normalize.coefficient ≤ 10 ^ k := by
    refine le_trans ?_ h
    rw [hcoeff]
    exact Nat.le_mul_of_pos_right _ (Nat.pow_pos (by norm_num))
  have hne : d.normalize.coefficient ≠ 10 ^ k := by
    intro heq
    obtain ⟨k, rfl⟩ := Nat.exists_eq_succ_of_ne_zero hk
    rw [heq, pow_succ, Nat.mul_mod_left] at hmod
    exact hmod rfl
  exact Digit.length_spell_le (fun h0' => hmod (by rw [h0'])) (lt_of_le_of_ne hle hne)

/-! ## The shortest decimal -/

/-- What the search comes to: a cut of the exact decimal, before which no neighbour rounds to the
magnitude, and which the shortest decimal is as short as.  If none does at all, the cut is at no
place and is the exact decimal itself. -/
theorem exists_cut_shortest (hm : m ≠ Magnitude.zero) :
    ∃ p < (Digit.spell (exact m).coefficient).length,
      (∀ q, p < q → q < (Digit.spell (exact m).coefficient).length →
        neighbour? m (exact m) q = none) ∧
      (Digit.spell (shortest m).coefficient).length
        ≤ (Digit.spell (exact m).coefficient).length - p ∧
      ((∃ e, neighbour? m (exact m) p = some e ∧ (shortest m).value = e.value) ∨
        (shortest m).value = (exact m).value) := by
  set length := (Digit.spell (exact m).coefficient).length with hlength
  have hpos : 0 < length := Digit.length_spell_pos _
  obtain ⟨p, hp, hbefore, hend⟩ := exists_firstNeighbour m (exact m) (length - 1)
  set e := firstNeighbour m (exact m) (length - 1) with he
  have hvalue : (shortest m).value = e.value := value_normalize e
  have hfits : e.nearest? = some m := nearest?_firstNeighbour (nearest?_exact m) _
  have hneighbour : e = (exact m).cut p ∨ e = ((exact m).cut p).succ := by
    rcases hend with hend | ⟨rfl, hend⟩
    · exact (eq_of_neighbour? hend).imp And.left And.left
    · exact Or.inl (hend.trans (cut_zero _).symm)
  have hcut : ((exact m).cut p).coefficient < 10 ^ (length - p) := coefficient_cut_lt (by omega)
  have hcoeff : e.coefficient ≤ 10 ^ (length - p) := by
    rcases hneighbour with he | he
    · exact he ▸ hcut.le
    · exact he ▸ hcut
  refine ⟨p, by omega, fun q hq hq' => hbefore q hq (by omega), ?_, ?_⟩
  · exact length_spell_normalize_le (coefficient_ne_zero hm hfits) (by omega) hcoeff
  · exact hend.imp (fun h => ⟨e, h, hvalue⟩) fun h => hvalue.trans (congrArg value h.2)

/-- **The shortest decimal has the fewest digits** among those that round to the magnitude: for one
with fewer the search would have ended at an earlier cut. -/
theorem length_shortest_le (hm : m ≠ Magnitude.zero) {t : Decimal} (ht : t.nearest? = some m)
    {k : ℕ} (hk : t.coefficient < 10 ^ k) : (Digit.spell (shortest m).coefficient).length ≤ k := by
  obtain ⟨p, hp, hbefore, hle, -⟩ := exists_cut_shortest hm
  have hexact := nearest?_exact m
  have hk0 : k ≠ 0 := by
    rintro rfl
    exact coefficient_ne_zero hm ht (Nat.lt_one_iff.1 hk)
  by_contra hlt
  have hq : (Digit.spell (exact m).coefficient).length - k
      < (Digit.spell (exact m).coefficient).length := by omega
  have hside := value_le_cut_or_succ_cut_le (t := t) (coefficient_ne_zero hm hexact) hq
    (by rwa [Nat.sub_sub_self (by omega)])
  obtain ⟨hlower, hupper⟩ := cut_or_succ_cut_fits hexact ht
  exact neighbour?_ne_none (hside.imp hlower hupper) (hbefore _ (by omega) hq)

/-- **No decimal of as many digits that rounds to the magnitude is nearer to it** than the shortest
one. -/
theorem abs_shortest_sub_le (hm : m ≠ Magnitude.zero) {t : Decimal} (ht : t.nearest? = some m)
    (hlt : t.coefficient < 10 ^ (Digit.spell (shortest m).coefficient).length) :
    |(shortest m).value - m.value| ≤ |t.value - m.value| := by
  obtain ⟨p, hp, -, hle, hend⟩ := exists_cut_shortest hm
  have hexact := nearest?_exact m
  rw [← value_exact]
  rcases hend with ⟨e, hneighbour, hvalue⟩ | hvalue
  · rw [hvalue]
    refine abs_neighbour_sub_le hneighbour hexact ht ?_
    exact value_le_cut_or_succ_cut_le (coefficient_ne_zero hm hexact) hp
      (hlt.trans_le (Nat.pow_le_pow_right (by norm_num) hle))
  · rw [hvalue, sub_self, abs_zero]
    exact abs_nonneg _

end Keypad.Decimal
