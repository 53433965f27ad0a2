import Keypad.Proofs.Binary64.Rank

/-!
# Proofs/Binary64/Nearest — the rounded magnitude is the nearest one, ties to even

`Magnitude.IsNearest q m` says what rounding a number `q` to the magnitude `m` means, without a
word on how: no magnitude is nearer to `q`, of two nearest ones `m` is the one with the even
significand, and `q` is below the number from which rounding gives `2 ^ 1024`.  There is one such
magnitude at most (`IsNearest.eq`), and `Magnitude.nearest?` finds it (`nearest?_eq_some_iff`).

The number `q` may lie in any ordered field, as the rationals or the reals.
-/

namespace Keypad

variable {K : Type*} [Field K] [LinearOrder K] [IsStrictOrderedRing K]

/-! ## Distances

Of two numbers the nearer one is told by the side of their midpoint. -/

theorem abs_sub_le_abs_sub_iff_of_lt {a b : K} (h : a < b) (q : K) :
    |a - q| ≤ |b - q| ↔ 2 * q ≤ a + b := by
  have hfactor : (b - q) ^ 2 - (a - q) ^ 2 = (b - a) * (a + b - 2 * q) := by ring
  rw [← sq_le_sq, ← sub_nonneg, hfactor, mul_nonneg_iff_of_pos_left (sub_pos.2 h), sub_nonneg]

theorem abs_sub_le_abs_sub_iff_of_gt {a b : K} (h : a < b) (q : K) :
    |b - q| ≤ |a - q| ↔ a + b ≤ 2 * q := by
  have hfactor : (a - q) ^ 2 - (b - q) ^ 2 = (b - a) * (2 * q - (a + b)) := by ring
  rw [← sq_le_sq, ← sub_nonneg, hfactor, mul_nonneg_iff_of_pos_left (sub_pos.2 h), sub_nonneg]

theorem abs_sub_eq_abs_sub_iff_of_lt {a b : K} (h : a < b) (q : K) :
    |a - q| = |b - q| ↔ 2 * q = a + b := by
  rw [le_antisymm_iff, abs_sub_le_abs_sub_iff_of_lt h, abs_sub_le_abs_sub_iff_of_gt h,
    ← le_antisymm_iff]

/-! ## Rounding to whole numbers -/

/-- A rounded quotient is off by a half at most. -/
theorem abs_roundQuotient_sub_le_half {den : ℕ} (h : 0 < den) (num : ℕ) :
    |(roundQuotient num den : K) - num / den| ≤ 1 / 2 := by
  obtain ⟨hle, hge⟩ := roundQuotient_error h num
  have hden : (0 : K) < den := Nat.cast_pos.2 h
  have hle' : 2 * (num : K) ≤ 2 * (roundQuotient num den * den) + den := by exact_mod_cast hle
  have hge' : 2 * ((roundQuotient num den : K) * den) ≤ 2 * num + den := by exact_mod_cast hge
  rw [abs_le]
  constructor
  · have : (num : K) / den ≤ roundQuotient num den + 1 / 2 := by
      rw [div_le_iff₀ hden]
      linarith
    linarith
  · have : (roundQuotient num den : K) - 1 / 2 ≤ num / den := by
      rw [le_div_iff₀ hden]
      linarith
    linarith

/-- A quotient that is rounded by a half is rounded to an even number. -/
theorem even_roundQuotient_of_half {num den : ℕ} (h : 0 < den)
    (ht : 2 * num = 2 * (roundQuotient num den * den) + den ∨
      2 * (roundQuotient num den * den) = 2 * num + den) : Even (roundQuotient num den) := by
  have hdiv := Nat.div_add_mod num den
  have hmod := Nat.mod_lt num h
  have hcomm := Nat.mul_comm den (num / den)
  rw [Nat.even_iff]
  simp only [roundQuotient] at ht ⊢
  split at ht
  · rename_i hc
    rw [if_pos hc]
    omega
  · rename_i hc
    rw [if_neg hc]
    rw [Nat.add_mul] at ht
    omega

theorem one_le_abs_natCast_sub {i j : ℕ} (h : i ≠ j) : (1 : K) ≤ |(i : K) - j| := by
  have hint : 1 ≤ |(i : ℤ) - j| := Int.one_le_abs (sub_ne_zero.2 (Nat.cast_injective.ne h))
  exact_mod_cast hint

/-- **No whole number is nearer to a quotient than the rounded one.** -/
theorem abs_roundQuotient_sub_le {den : ℕ} (h : 0 < den) (num j : ℕ) :
    |(roundQuotient num den : K) - num / den| ≤ |(j : K) - num / den| := by
  have hhalf := abs_roundQuotient_sub_le_half (K := K) h num
  by_cases hj : j = roundQuotient num den
  · rw [hj]
  · have hone := one_le_abs_natCast_sub (K := K) hj
    have htri := abs_sub_le (j : K) (num / den) (roundQuotient num den)
    rw [abs_sub_comm ((num : K) / den)] at htri
    linarith

/-- **Of two nearest whole numbers the rounded quotient is the even one.** -/
theorem even_roundQuotient_of_abs_eq {num den j : ℕ} (h : 0 < den)
    (hj : j ≠ roundQuotient num den)
    (ht : |(j : K) - num / den| = |(roundQuotient num den : K) - num / den|) :
    Even (roundQuotient num den) := by
  have hden : (0 : K) < den := Nat.cast_pos.2 h
  have hhalf := abs_roundQuotient_sub_le_half (K := K) h num
  have hone := one_le_abs_natCast_sub (K := K) hj
  have htri := abs_sub_le (j : K) (num / den) (roundQuotient num den)
  rw [abs_sub_comm ((num : K) / den)] at htri
  have heq : |(roundQuotient num den : K) - num / den| = 1 / 2 := by linarith
  have hnum : (num : K) / den * den = num := div_mul_cancel₀ _ hden.ne'
  refine even_roundQuotient_of_half h ?_
  rcases eq_or_eq_neg_of_abs_eq heq with hpos | hneg
  · right
    have : 2 * ((roundQuotient num den : K) * den) = 2 * num + den := by
      rw [eq_add_of_sub_eq hpos, add_mul, hnum]
      ring
    exact_mod_cast this
  · left
    have : 2 * (num : K) = 2 * (roundQuotient num den * den) + den := by
      rw [eq_add_of_sub_eq hneg, add_mul, hnum]
      ring
    exact_mod_cast this

namespace Magnitude

/-! ## The nearest rank

Ranks go on beyond the greatest magnitude here, so that overflow is no case of its own: it only asks
whether the nearest rank is one of a magnitude. -/

/-- No rank is nearer to `q` units than `r`, and `r` is even if another one is as near. -/
def IsNearestRank (q : K) (r : ℕ) : Prop :=
  ∀ s, s ≠ r → |(rankUnits r : K) - q| ≤ |(rankUnits s : K) - q| ∧
    (|(rankUnits s : K) - q| = |(rankUnits r : K) - q| → Even r)

/-- The bounds of the quotient at the step it is rounded to. -/
theorem stepExponent_bounds {num den : ℕ} (h : 0 < den) :
    num < 2 ^ 53 * (den * 2 ^ stepExponent num den) ∧
      (stepExponent num den = 0 ∨ 2 ^ 52 * (den * 2 ^ stepExponent num den) ≤ num) := by
  set e := stepExponent num den with he
  have hlog : (num / den).log2 ≤ e + 52 := by rw [he, stepExponent]; omega
  have hmul : ∀ k, 2 ^ k * (den * 2 ^ e) = 2 ^ (e + k) * den := fun k => by rw [pow_add]; ring
  constructor
  · have hlt : num / den < 2 ^ (e + 53) :=
      Nat.lt_log2_self.trans_le (Nat.pow_le_pow_right (by decide) (by omega))
    rw [hmul]
    exact (Nat.div_lt_iff_lt_mul h).1 hlt
  · rcases Nat.eq_zero_or_pos e with h0 | hpos
    · exact Or.inl h0
    · right
      have hlog' : (num / den).log2 = e + 52 := by
        rw [he, stepExponent] at hpos ⊢
        omega
      have hne : num / den ≠ 0 := by
        intro h0
        rw [h0, Nat.log2_zero] at hlog'
        omega
      rw [hmul, ← hlog']
      exact (Nat.le_div_iff_mul_le h).1 (Nat.log2_self_le hne)

/-- The rounded quotient at that step is a significand, or the one where the exponent changes. -/
theorem roundQuotient_bounds {num D e : ℕ} (hD : 0 < D) (hlt : num < 2 ^ 53 * D)
    (hge : e = 0 ∨ 2 ^ 52 * D ≤ num) :
    roundQuotient num D ≤ 2 ^ 53 ∧ (e = 0 ∨ 2 ^ 52 ≤ roundQuotient num D) := by
  obtain ⟨hle', hge'⟩ := roundQuotient_error hD num
  constructor
  · by_contra hc
    have : (2 ^ 53 + 1) * D ≤ roundQuotient num D * D := Nat.mul_le_mul_right _ (by omega)
    omega
  · refine hge.imp_right fun hge => ?_
    by_contra hc
    have : (roundQuotient num D + 1) * D ≤ 2 ^ 52 * D := Nat.mul_le_mul_right _ (by omega)
    rw [Nat.add_mul] at this
    omega

/-- A rank that is nearest among those of an interval around `q` is nearest among all. -/
theorem isNearestRank_of_interval {q : K} {r a b : ℕ} (ha : (rankUnits a : K) ≤ q)
    (hb : q ≤ rankUnits b) (har : a ≤ r) (hrb : r ≤ b)
    (h : ∀ s, a ≤ s → s ≤ b → s ≠ r → |(rankUnits r : K) - q| ≤ |(rankUnits s : K) - q| ∧
      (|(rankUnits s : K) - q| = |(rankUnits r : K) - q| → Even r)) : IsNearestRank q r := by
  have hmono : ∀ {i j : ℕ}, i < j → (rankUnits i : K) < rankUnits j := fun hij =>
    Nat.cast_lt.2 (strictMono_rankUnits hij)
  have hend : ∀ s, a ≤ s → s ≤ b → |(rankUnits r : K) - q| ≤ |(rankUnits s : K) - q| := by
    intro s hs hs'
    by_cases hsr : s = r
    · rw [hsr]
    · exact (h s hs hs' hsr).1
  intro s hsr
  rcases lt_or_ge s a with hs | hs
  · have hlt : |(rankUnits a : K) - q| < |(rankUnits s : K) - q| := by
      rw [abs_of_nonpos (by linarith), abs_of_nonpos (by linarith [hmono hs])]
      linarith [hmono hs]
    have := (hend a le_rfl (har.trans hrb)).trans_lt hlt
    exact ⟨this.le, fun ht => absurd ht this.ne'⟩
  · rcases le_or_gt s b with hs' | hs'
    · exact h s hs hs' hsr
    · have hlt : |(rankUnits b : K) - q| < |(rankUnits s : K) - q| := by
        rw [abs_of_nonneg (by linarith), abs_of_nonneg (by linarith [hmono hs'])]
        linarith [hmono hs']
      have := (hend b (har.trans hrb) le_rfl).trans_lt hlt
      exact ⟨this.le, fun ht => absurd ht this.ne'⟩

/-- At the ranks of one exponent, distances in units are distances of the significand. -/
theorem abs_rankUnits_add_sub {num den e j : ℕ} (hj : j ≤ 2 ^ 53) (hj' : e = 0 ∨ 2 ^ 52 ≤ j) :
    |(rankUnits (e * 2 ^ 52 + j) : K) - num / den|
      = |(j : K) - num / (den * 2 ^ e : ℕ)| * 2 ^ e := by
  have hpow : (0 : K) < 2 ^ e := by positivity
  have hfactor : (rankUnits (e * 2 ^ 52 + j) : K) - num / den
      = ((j : K) - num / (den * 2 ^ e : ℕ)) * 2 ^ e := by
    rw [rankUnits_add hj hj', sub_mul]
    push_cast
    rw [← div_div, div_mul_cancel₀ _ hpow.ne']
  rw [hfactor, abs_mul, abs_of_pos hpow]

theorem nearestRank_eq (num den : ℕ) :
    nearestRank num den = stepExponent num den * 2 ^ 52
      + roundQuotient num (den * 2 ^ stepExponent num den) := by
  rw [nearestRank, Nat.shiftLeft_eq]
  norm_num

/-- **The rank that rounding gives is the nearest one**, and even if there are two.  The ranks to
compare with are those of its exponent, from the least significand there (`low`) up to `2 ^ 53`. -/
theorem isNearestRank_nearestRank {num den : ℕ} (h : 0 < den) :
    IsNearestRank ((num : K) / den) (nearestRank num den) := by
  obtain ⟨hlt, hge⟩ := @stepExponent_bounds num den h
  rw [nearestRank_eq]
  set e := stepExponent num den
  have hD : 0 < den * 2 ^ e := Nat.mul_pos h (Nat.two_pow_pos e)
  obtain ⟨hk, hk'⟩ := roundQuotient_bounds hD hlt hge
  have hpow : (0 : K) < 2 ^ e := by positivity
  have hden : (0 : K) < den := Nat.cast_pos.2 h
  obtain ⟨low, hlow, hlowk, hlowq⟩ : ∃ low, (e = 0 ∨ 2 ^ 52 ≤ low) ∧
      low ≤ roundQuotient num (den * 2 ^ e) ∧ low * (den * 2 ^ e) ≤ num := by
    by_cases h0 : e = 0
    · exact ⟨0, Or.inl h0, Nat.zero_le _, by omega⟩
    · exact ⟨2 ^ 52, Or.inr le_rfl, hk'.resolve_left h0, hge.resolve_left h0⟩
  refine isNearestRank_of_interval (a := e * 2 ^ 52 + low) (b := e * 2 ^ 52 + 2 ^ 53) ?_ ?_
    (by omega) (by omega) fun s hs hs' hsk => ?_
  · rw [rankUnits_add (hlowk.trans hk) hlow, le_div_iff₀ hden]
    exact_mod_cast (by linarith : low * 2 ^ e * den ≤ num)
  · rw [rankUnits_add le_rfl (Or.inr (by norm_num)), div_le_iff₀ hden]
    exact_mod_cast (by linarith : num ≤ 2 ^ 53 * 2 ^ e * den)
  · obtain ⟨j, rfl⟩ : ∃ j, s = e * 2 ^ 52 + j := ⟨s - e * 2 ^ 52, by omega⟩
    rw [abs_rankUnits_add_sub hk hk', abs_rankUnits_add_sub (by omega) (by omega)]
    refine ⟨mul_le_mul_of_nonneg_right (abs_roundQuotient_sub_le hD num j) hpow.le, fun ht => ?_⟩
    have heven := even_roundQuotient_of_abs_eq hD (by omega) (mul_right_cancel₀ hpow.ne' ht)
    exact (Even.mul_left (by decide) e).add heven

/-- **Overflow.**  The nearest rank is one of a magnitude exactly below the midpoint of the greatest
magnitude and the number after it: a tie of these two goes to the latter, whose rank is even. -/
theorem IsNearestRank.lt_rankEnd_iff {q : K} {r : ℕ} (h : IsNearestRank q r) :
    r < rankEnd ↔ 2 * q < (rankUnits (rankEnd - 1) : K) + rankUnits rankEnd := by
  have hmono : ∀ {i j : ℕ}, i ≤ j → (rankUnits i : K) ≤ rankUnits j := fun hij =>
    Nat.cast_le.2 (strictMono_rankUnits.monotone hij)
  have hlt : ∀ {i j : ℕ}, i < j → (rankUnits i : K) < rankUnits j := fun hij =>
    Nat.cast_lt.2 (strictMono_rankUnits hij)
  have hend : rankEnd = 2047 * 2 ^ 52 := rfl
  constructor
  · intro hr
    obtain ⟨hle, htie⟩ := h rankEnd hr.ne'
    rw [abs_sub_le_abs_sub_iff_of_lt (hlt hr)] at hle
    have hprev := hmono (Nat.le_sub_one_of_lt hr)
    refine lt_of_le_of_ne (hle.trans (by linarith)) fun hq => ?_
    have heq : rankUnits r = rankUnits (rankEnd - 1) :=
      Nat.cast_injective (R := K) (le_antisymm hprev (by linarith))
    have hrank : r = rankEnd - 1 := strictMono_rankUnits.injective heq
    have heven := htie ((abs_sub_eq_abs_sub_iff_of_lt (hlt hr) q).2 (by rw [hq, heq])).symm
    rw [hrank, hend] at heven
    exact absurd heven (by decide)
  · intro hq
    by_contra hr
    have hr' : rankEnd - 1 < r := by omega
    have hle := (h (rankEnd - 1) hr'.ne).1
    rw [abs_sub_le_abs_sub_iff_of_gt (hlt hr')] at hle
    have := hmono (not_lt.1 hr)
    linarith

/-! ## The nearest magnitude -/

/-- The number from which rounding gives `2 ^ 1024`: the midpoint of the greatest magnitude and
`2 ^ 1024`. -/
def overflowBound : ℚ := 2 ^ 1024 - 2 ^ 970

/-- Rounding the number `q` to nearest, ties to even, gives the magnitude `m`. -/
structure IsNearest (q : K) (m : Magnitude) : Prop where
  abs_sub_le : ∀ m' : Magnitude, |(m.value : K) - q| ≤ |(m'.value : K) - q|
  even_of_tie : ∀ m' : Magnitude, m' ≠ m → |(m'.value : K) - q| = |(m.value : K) - q| →
    Even m.significand
  lt_overflow : q < (overflowBound : K)

/-- The sum of the greatest magnitude and the number after it, in units. -/
theorem rankUnits_add_rankUnits_rankEnd :
    rankUnits (rankEnd - 1) + rankUnits rankEnd + 2 * (2 ^ 970 * unitsPerOne)
      = 2 * (2 ^ 1024 * unitsPerOne) := by
  have hlast : rankEnd - 1 = 2045 * 2 ^ 52 + (2 ^ 53 - 1) := by norm_num [rankEnd]
  have hend : rankEnd = 2045 * 2 ^ 52 + 2 ^ 53 := by norm_num [rankEnd]
  have hstep : 2 ^ 2045 = 2 * (2 ^ 970 * unitsPerOne) := by
    rw [unitsPerOne_eq, unitPlaces_eq, ← pow_add, ← pow_succ']
  have htop : 2 ^ 1024 = 2 ^ 54 * 2 ^ 970 := by rw [← pow_add]
  rw [hlast, rankUnits_add (by norm_num) (by norm_num), hend, rankUnits_add le_rfl (by norm_num),
    hstep, htop, mul_assoc (2 ^ 54)]
  generalize 2 ^ 970 * unitsPerOne = step
  omega

theorem rankUnits_midpoint :
    (rankUnits (rankEnd - 1) : K) + rankUnits rankEnd
      = 2 * ((overflowBound : K) * (unitsPerOne : K)) := by
  have hunits := congrArg (Nat.cast (R := K)) rankUnits_add_rankUnits_rankEnd
  simp only [Nat.cast_add, Nat.cast_mul, Nat.cast_pow, Nat.cast_ofNat] at hunits
  simp only [overflowBound, Rat.cast_sub, Rat.cast_pow, Rat.cast_ofNat, sub_mul, mul_sub]
  exact eq_sub_of_add_eq hunits

theorem unitsPerOne_cast_pos : (0 : K) < (unitsPerOne : K) := Nat.cast_pos.2 unitsPerOne_pos

/-- Distances of values are distances in units. -/
theorem abs_value_sub (m : Magnitude) (q : K) :
    |(m.value : K) - q / (unitsPerOne : K)|
      = |(rankUnits m.rank : K) - q| / (unitsPerOne : K) := by
  have hpos := unitsPerOne_cast_pos (K := K)
  rw [← abs_of_pos hpos, ← abs_div, abs_of_pos hpos, value_eq_units_div, units_eq_rankUnits,
    sub_div]
  push_cast
  rfl

/-- The magnitude of a nearest rank is nearest. -/
theorem isNearest_of_isNearestRank {q : K} {m : Magnitude} (h : IsNearestRank q m.rank) :
    IsNearest (q / (unitsPerOne : K)) m := by
  have hpos := unitsPerOne_cast_pos (K := K)
  have hne : ∀ {m' : Magnitude}, m' ≠ m → m'.rank ≠ m.rank := by
    rintro ⟨r, hr⟩ hm rfl
    exact hm rfl
  refine ⟨fun m' => ?_, fun m' hm ht => ?_, ?_⟩
  · rw [abs_value_sub, abs_value_sub, div_le_div_iff_of_pos_right hpos]
    by_cases hm : m' = m
    · rw [hm]
    · exact (h m'.rank (hne hm)).1
  · rw [abs_value_sub, abs_value_sub, div_left_inj' hpos.ne'] at ht
    exact even_significand_iff.2 ((h m'.rank (hne hm)).2 ht)
  · have hlt := h.lt_rankEnd_iff.1 m.rank_lt_rankEnd
    rw [rankUnits_midpoint] at hlt
    rw [div_lt_iff₀ hpos]
    linarith

/-- Of two magnitudes with even significands neither rounds a number for which they tie: there is a
magnitude between them, and it is nearer. -/
theorem IsNearest.not_rank_lt {q : K} {m m' : Magnitude} (h : IsNearest q m)
    (h' : IsNearest q m') : ¬ m.rank < m'.rank := by
  intro hlt
  have hne : m' ≠ m := by
    rintro rfl
    exact lt_irrefl _ hlt
  have htie := le_antisymm (h'.abs_sub_le m) (h.abs_sub_le m')
  have heven := even_significand_iff.1 (h.even_of_tie m' hne htie)
  have heven' := even_significand_iff.1 (h'.even_of_tie m hne.symm htie.symm)
  have hmid := (abs_sub_eq_abs_sub_iff_of_lt
    (Rat.cast_lt (K := K).2 (value_lt_value hlt)) q).1 htie.symm
  have hbetween : m.rank + 1 < m'.rank := by
    rw [Nat.even_iff] at heven heven'
    omega
  let n : Magnitude := ⟨m.rank + 1, hbetween.trans m'.rank_lt⟩
  have hn : (m.value : K) < n.value := Rat.cast_lt.2 (value_lt_value (Nat.lt_succ_self _))
  have hn' : (n.value : K) < m'.value := Rat.cast_lt.2 (value_lt_value hbetween)
  have hle := (abs_sub_le_abs_sub_iff_of_lt hn q).1 (h.abs_sub_le n)
  linarith

/-- **There is one nearest magnitude at most.** -/
theorem IsNearest.eq {q : K} {m m' : Magnitude} (h : IsNearest q m) (h' : IsNearest q m') :
    m = m' :=
  rank_injective (le_antisymm (not_lt.1 (h'.not_rank_lt h)) (not_lt.1 (h.not_rank_lt h')))

/-- **A magnitude is found exactly where it is the nearest one.** -/
theorem nearest?_eq_some_iff {num den : ℕ} (h : 0 < den) {m : Magnitude} :
    nearest? num den = some m ↔ IsNearest ((num : K) / den / (unitsPerOne : K)) m := by
  have hrank : IsNearestRank ((num : K) / den) (nearestRank num den) := isNearestRank_nearestRank h
  have hend : rankEnd = 0x7FF0000000000000 := by norm_num [rankEnd]
  have hfound : ∀ hlt : nearestRank num den < rankEnd,
      nearest? num den = some ⟨nearestRank num den, hend ▸ hlt⟩ := fun hlt => dif_pos (hend ▸ hlt)
  constructor
  · intro hm
    have hlt : nearestRank num den < rankEnd := by
      by_contra hge
      rw [nearest?, dif_neg (hend ▸ hge)] at hm
      cases hm
    rw [hfound hlt] at hm
    obtain rfl := Option.some.inj hm
    exact isNearest_of_isNearestRank hrank
  · intro hm
    have hq := (div_lt_iff₀ unitsPerOne_cast_pos).1 hm.lt_overflow
    have hlt : nearestRank num den < rankEnd := by
      rw [hrank.lt_rankEnd_iff, rankUnits_midpoint]
      linarith
    rw [hfound hlt]
    exact congrArg some (IsNearest.eq (isNearest_of_isNearestRank hrank) hm)

/-- **No magnitude is found exactly from the overflow bound on.** -/
theorem nearest?_eq_none_iff {num den : ℕ} (h : 0 < den) :
    nearest? num den = none ↔ (overflowBound : K) ≤ (num : K) / den / (unitsPerOne : K) := by
  have hrank : IsNearestRank ((num : K) / den) (nearestRank num den) := isNearestRank_nearestRank h
  have hend : rankEnd = 0x7FF0000000000000 := by norm_num [rankEnd]
  have hlt : nearestRank num den < 0x7FF0000000000000 ↔
      (num : K) / den < (overflowBound : K) * (unitsPerOne : K) := by
    rw [← hend, hrank.lt_rankEnd_iff, rankUnits_midpoint]
    exact mul_lt_mul_iff_right₀ two_pos
  rw [le_div_iff₀ unitsPerOne_cast_pos, ← not_lt, ← hlt, nearest?]
  by_cases hr : nearestRank num den < 0x7FF0000000000000
  · rw [dif_pos hr]
    exact iff_of_false (Option.some_ne_none _) (not_not_intro hr)
  · rw [dif_neg hr]
    exact iff_of_true rfl hr

/-- **A magnitude is nearest to its own value.** -/
theorem isNearest_value (m : Magnitude) : IsNearest (m.value : K) m := by
  have h := (nearest?_eq_some_iff (K := K) one_pos).1 (nearest?_units m)
  rw [Nat.cast_one, div_one] at h
  rw [value_eq_units_div, Rat.cast_div, Rat.cast_natCast, Rat.cast_natCast]
  exact h

theorem isNearest_value_rat (m : Magnitude) : m.IsNearest m.value := by
  simpa only [Rat.cast_id] using m.isNearest_value (K := ℚ)

end Magnitude

end Keypad
