import Keypad.Key.Script
import Keypad.Proofs.Binary64.Canonical
import Keypad.Proofs.Binary64.Reciprocal
import Keypad.Proofs.Calculator.CarriedOver

/-!
# Proofs/Calculator/Transforms — what the transforms make of the number being typed

A transform stands for a function of exact numbers.  Of a finite number it makes the value of that
function, rounded once (`Transform.Gives`, `Transform.gives_apply`), and the calculator shows the
text of the result and keeps all else (`transform_of_finite`).  Although it is kept as text, a
square is what its root is taken of: the two roundings cancel, and the number being typed is there
again (`transform_square_squareRoot`).  Two reciprocals bring it back up to the error of two roundings
(`transform_reciprocal_reciprocal`).
-/

namespace Keypad

open Binary64

/-! ## What a transform makes of a finite number -/

/-- The magnitude one hundred. -/
def Magnitude.hundred : Magnitude := ⟨0x4059000000000000, by decide⟩

theorem Magnitude.value_hundred : Magnitude.hundred.value = 100 := by
  have hsignificand : hundred.significand = 25 * 2 ^ 48 := by decide
  have hexponent : hundred.exponent = 1028 := by decide
  rw [value, hsignificand, hexponent]
  norm_num

namespace Transform

/-- The number `x` is what a transform should make of the finite number with a sign and a magnitude:
the exact value of a function there, rounded.  The reciprocal of a zero is infinite with its sign,
and a number below zero has no square root. -/
def Gives (t : Transform) (negative : Bool) (m : Magnitude) (x : Binary64) : Prop :=
  match t with
  | percent => IsRounded (signedValue negative m / 100) negative x
  | reciprocal =>
    if m = Magnitude.zero then x = infinite negative
    else IsRounded (1 / signedValue negative m) negative x
  | squareRoot =>
    if signedValue negative m < 0 then x = nan
    else IsRounded √(signedValue negative m : ℝ) negative x
  | square => IsRounded (signedValue negative m ^ 2) false x
  | negate => x = finite (!negative) m

variable {s : Bool} {m : Magnitude}

theorem gives_percent : percent.Gives s m (percent.apply (finite s m)) := by
  have hhundred : Binary64.ofNat 100 = finite false Magnitude.hundred :=
    ofNat_eq_finite Magnitude.value_hundred
  have hne : Magnitude.hundred ≠ Magnitude.zero := by decide
  have hdiv := isRounded_div s false m hne
  rw [Bool.xor_false] at hdiv
  change IsRounded (signedValue s m / 100) s (finite s m / Binary64.ofNat 100)
  rw [hhundred, ← Magnitude.value_hundred]
  exact hdiv

theorem gives_reciprocal : reciprocal.Gives s m (reciprocal.apply (finite s m)) := by
  have hone : Binary64.ofNat 1 = finite false Magnitude.one :=
    ofNat_eq_finite (Magnitude.value_one.trans Nat.cast_one.symm)
  change if m = Magnitude.zero then Binary64.ofNat 1 / finite s m = infinite s
    else IsRounded (1 / signedValue s m) s (Binary64.ofNat 1 / finite s m)
  rw [hone]
  split
  · rename_i hm
    rw [hm]
    cases s <;> decide
  · rename_i hm
    have hdiv := isRounded_div false s Magnitude.one hm
    rw [Bool.false_xor] at hdiv
    rw [← Magnitude.value_one]
    exact hdiv

theorem gives_squareRoot : squareRoot.Gives s m (squareRoot.apply (finite s m)) := by
  change if signedValue s m < 0 then sqrt (finite s m) = nan
    else IsRounded √(signedValue s m : ℝ) s (sqrt (finite s m))
  split
  · rename_i hneg
    exact sqrt_of_neg hneg
  · rename_i hnonneg
    exact isRounded_sqrt (not_lt.1 hnonneg)

theorem gives_square : square.Gives s m (square.apply (finite s m)) := by
  have hmul := isRounded_mul s s m m
  rw [Bool.xor_self, ← sq] at hmul
  exact hmul

/-- **A transform makes of a finite number what it should.** -/
theorem gives_apply (t : Transform) (s : Bool) (m : Magnitude) :
    t.Gives s m (t.apply (finite s m)) := by
  cases t with
  | percent => exact gives_percent
  | reciprocal => exact gives_reciprocal
  | squareRoot => exact gives_squareRoot
  | square => exact gives_square
  | negate => rfl

end Transform

namespace Calculator

variable {c : Calculator} {x : Binary64} {s : Bool} {m : Magnitude}

/-! ## What a transform leaves of a calculator -/

/-- The calculator `d` is `c` with another number being typed, which the upper line shows. -/
structure Retypes (c d : Calculator) : Prop where
  expression_eq : d.expression = c.expression
  pending_eq : d.pending = c.pending
  lower_eq : d.display.lower = c.display.lower
  upper_eq : d.display.upper = d.entry

theorem Retypes.trans {c d e : Calculator} (h : c.Retypes d) (h' : d.Retypes e) : c.Retypes e :=
  ⟨h'.expression_eq.trans h.expression_eq, h'.pending_eq.trans h.pending_eq,
    h'.lower_eq.trans h.lower_eq, h'.upper_eq⟩

theorem transform_of_number? (hx : c.number? = some x) (t : Transform) :
    c.transform t = c.withEntry (t.apply x).text := by
  rw [transform, hx]

/-- A transform shows the text of what it makes. -/
theorem entry_transform (hx : c.number? = some x) (t : Transform) :
    (c.transform t).entry = (t.apply x).text := by
  rw [transform_of_number? hx]
  rfl

/-- **What a transform makes is the number being typed**, without the sign of a zero. -/
theorem number?_transform (hx : c.number? = some x) (t : Transform) :
    (c.transform t).number? = some (t.apply x).withoutZeroSign :=
  number?_of_entry_eq_text (entry_transform hx t)

theorem retypes_transform (hx : c.number? = some x) (t : Transform) :
    c.Retypes (c.transform t) := by
  rw [transform_of_number? hx]
  exact ⟨rfl, rfl, rfl, if_neg (t.apply x).text_ne_empty⟩

/-! ## Finite numbers -/

/-- **Transforms of finite numbers are rounded correctly.**  A transform replaces the number being
typed by the text of what it should make of it, and keeps all else.  Of the controls, the one with
the name of the square takes the root, and the one with the name of the exponent the square. -/
theorem transform_of_finite (h : c.number? = some (finite s m)) :
    (∀ t : Transform, ∃ x, t.Gives s m x ∧ (c.transform t).entry = x.text ∧
        c.Retypes (c.transform t)) ∧
      Script.read "[percentage][fraction][square][exponent]" = .ok
        [.transform .percent, .transform .reciprocal, .transform .squareRoot,
          .transform .square] := by
  refine ⟨fun t => ⟨_, t.gives_apply s m, entry_transform h t, retypes_transform h t⟩, ?_⟩
  decide +kernel

/-- The root of two is not whole, and is shown with all the digits that tell its rounding. -/
theorem transform_of_finite_two :
    (fresh.type '2').number? = some (finite false ⟨0x4000000000000000, by decide⟩) ∧
      (∃ x, Transform.squareRoot.Gives false ⟨0x4000000000000000, by decide⟩ x ∧
        ((fresh.type '2').transform .squareRoot).entry = x.text ∧
        (fresh.type '2').Retypes ((fresh.type '2').transform .squareRoot)) ∧
      ((fresh.type '2').transform .squareRoot).entry = "1.4142135623730951" := by
  have h : (fresh.type '2').number? = some (finite false ⟨0x4000000000000000, by decide⟩) := by
    decide +kernel
  exact ⟨h, (transform_of_finite h).1 .squareRoot, by decide +kernel⟩

/-- **Squaring and then taking the root is exact** between `2 ^ -511` and `2 ^ 511`, although the
square is rounded and read from its text: what is left is the number without its sign. -/
theorem transform_square_squareRoot (h : c.number? = some (finite s m))
    (hlow : 2 ^ (-511 : ℤ) ≤ m.value) (hhigh : m.value ≤ 2 ^ (511 : ℤ)) :
    ((c.transform .square).transform .squareRoot).entry = (finite false m).text ∧
      ((c.transform .square).transform .squareRoot).number? = some (finite false m) := by
  obtain ⟨y, hsquare, hroot⟩ := exists_sqrt_mul_self (s := s) hlow hhigh
  have hy : (c.transform .square).number? = some (finite false y) := by
    rw [number?_transform h]
    change some (finite s m * finite s m).withoutZeroSign = _
    rw [hsquare]
    rfl
  have hentry := entry_transform hy .squareRoot
  have hnumber := number?_transform hy .squareRoot
  have happly : Transform.squareRoot.apply (finite false y) = finite false m := hroot
  rw [happly] at hentry hnumber
  exact ⟨hentry, hnumber⟩

/-- A tenth has no exact square, and is there again after the root. -/
theorem transform_square_squareRoot_tenth :
    (fresh.point.type '1').number? = some (finite false ⟨0x3FB999999999999A, by decide⟩) ∧
      2 ^ (-511 : ℤ) ≤ (⟨0x3FB999999999999A, by decide⟩ : Magnitude).value ∧
      (⟨0x3FB999999999999A, by decide⟩ : Magnitude).value ≤ 2 ^ (511 : ℤ) ∧
      ((fresh.point.type '1').transform .square).entry = "0.010000000000000002" ∧
      (((fresh.point.type '1').transform .square).transform .squareRoot).entry = "0.1" := by
  have h : (fresh.point.type '1').number?
      = some (finite false ⟨0x3FB999999999999A, by decide⟩) := by decide +kernel
  have hvalue : (⟨0x3FB999999999999A, by decide⟩ : Magnitude).value
      = 0x1999999999999A * 2 ^ (-56 : ℤ) := by
    have hsignificand : (⟨0x3FB999999999999A, by decide⟩ : Magnitude).significand
        = 0x1999999999999A := by decide
    have hexponent : (⟨0x3FB999999999999A, by decide⟩ : Magnitude).exponent = 1018 := by decide
    rw [Magnitude.value, hsignificand, hexponent]
    norm_num
  have hlow : 2 ^ (-511 : ℤ) ≤ (⟨0x3FB999999999999A, by decide⟩ : Magnitude).value := by
    rw [hvalue]
    exact (zpow_le_zpow_right₀ one_le_two (by norm_num : (-511 : ℤ) ≤ -56)).trans (by norm_num)
  have hhigh : (⟨0x3FB999999999999A, by decide⟩ : Magnitude).value ≤ 2 ^ (511 : ℤ) := by
    rw [hvalue]
    exact le_trans (by norm_num) (zpow_le_zpow_right₀ one_le_two (by norm_num : (0 : ℤ) ≤ 511))
  have htext : (finite false ⟨0x3FB999999999999A, by decide⟩).text = "0.1" := by decide +kernel
  exact ⟨h, hlow, hhigh, by decide +kernel,
    (transform_square_squareRoot h hlow hhigh).1.trans htext⟩

/-- The reciprocal of a number between `2 ^ -1022` and `2 ^ 1022` is again one. -/
theorem exists_number?_transform_reciprocal (h : c.number? = some (finite s m))
    (hlow : 2 ^ (-1022 : ℤ) ≤ m.value) (hhigh : m.value ≤ 2 ^ (1022 : ℤ)) :
    ∃ n, (c.transform .reciprocal).number? = some (finite s n) ∧ n.IsNearest m.value⁻¹ ∧
      2 ^ (-1022 : ℤ) ≤ n.value ∧ n.value ≤ 2 ^ (1022 : ℤ) := by
  have hgives := Transform.gives_reciprocal (s := s) (m := m)
  rw [Transform.Gives, if_neg (Magnitude.ne_zero_of_two_zpow_le hlow)] at hgives
  obtain ⟨n, hn, hnear⟩ := hgives.exists_eq_finite_of_inv hlow hhigh
  obtain ⟨hnlow, hnhigh⟩ := hnear.bounds_of_inv hlow hhigh
  refine ⟨n, ?_, hnear, hnlow, hnhigh⟩
  have hne : finite s n ≠ zero true := fun hzero =>
    Magnitude.ne_zero_of_two_zpow_le hnlow (Binary64.finite.inj hzero).2
  rw [number?_transform h, hn, withoutZeroSign, if_neg hne]

/-- **Taking the reciprocal twice stays within two roundings** between `2 ^ -1022` and `2 ^ 1022`:
what is left is finite, of the same sign, and off by a part in `2 ^ 51` at most. -/
theorem transform_reciprocal_reciprocal (h : c.number? = some (finite s m))
    (hlow : 2 ^ (-1022 : ℤ) ≤ m.value) (hhigh : m.value ≤ 2 ^ (1022 : ℤ)) :
    ∃ w, ((c.transform .reciprocal).transform .reciprocal).number? = some (finite s w) ∧
      w ≠ Magnitude.zero ∧
      |signedValue s w - signedValue s m| ≤ 2 ^ (-51 : ℤ) * |signedValue s m| := by
  obtain ⟨n, hn, hnear, hnlow, hnhigh⟩ := exists_number?_transform_reciprocal h hlow hhigh
  obtain ⟨w, hw, hnear', hwlow, -⟩ := exists_number?_transform_reciprocal hn hnlow hnhigh
  refine ⟨w, hw, Magnitude.ne_zero_of_two_zpow_le hwlow, ?_⟩
  have hdist := abs_signedValue_sub (isSignOf_signedValue s m) w
  rw [Rat.cast_id, Rat.cast_id, abs_signedValue_eq] at hdist
  rw [hdist, abs_signedValue_eq]
  exact hnear.abs_sub_le_of_inv_inv hnear' hlow hhigh

/-- The magnitude forty-nine. -/
def fortyNine : Magnitude := ⟨0x4048800000000000, by decide⟩

theorem value_fortyNine : fortyNine.value = 49 := by
  have hsignificand : fortyNine.significand = 49 * 2 ^ 47 := by decide
  have hexponent : fortyNine.exponent = 1027 := by decide
  rw [Magnitude.value, hsignificand, hexponent]
  norm_num

/-- A calculator with `-49` typed. -/
def minusFortyNine : Calculator := fresh.run [.type '4', .type '9', .transform .negate]

/-- The reciprocal of the reciprocal of `-49` is off by a step. -/
theorem transform_reciprocal_reciprocal_fortyNine :
    minusFortyNine.number? = some (finite true fortyNine) ∧
      2 ^ (-1022 : ℤ) ≤ fortyNine.value ∧ fortyNine.value ≤ 2 ^ (1022 : ℤ) ∧
      (∃ w, ((minusFortyNine.transform .reciprocal).transform .reciprocal).number?
          = some (finite true w) ∧ w ≠ Magnitude.zero ∧
        |signedValue true w - signedValue true fortyNine|
          ≤ 2 ^ (-51 : ℤ) * |signedValue true fortyNine|) ∧
      ((minusFortyNine.transform .reciprocal).transform .reciprocal).entry
        = "-49.00000000000001" := by
  have h : minusFortyNine.number? = some (finite true fortyNine) := by decide +kernel
  have hlow : 2 ^ (-1022 : ℤ) ≤ fortyNine.value := by
    rw [value_fortyNine]
    exact (zpow_le_zpow_right₀ one_le_two (by norm_num : (-1022 : ℤ) ≤ 0)).trans (by norm_num)
  have hhigh : fortyNine.value ≤ 2 ^ (1022 : ℤ) := by
    rw [value_fortyNine]
    exact le_trans (by norm_num) (zpow_le_zpow_right₀ one_le_two (by norm_num : (6 : ℤ) ≤ 1022))
  exact ⟨h, hlow, hhigh, transform_reciprocal_reciprocal h hlow hhigh, by decide +kernel⟩

end Calculator

end Keypad
