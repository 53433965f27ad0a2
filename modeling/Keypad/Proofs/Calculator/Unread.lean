import Keypad.Proofs.Binary64.Reading
import Keypad.Proofs.Calculator.Committed
import Keypad.Proofs.Calculator.Entry
import Keypad.Proofs.Calculator.Infix

/-!
# Proofs/Calculator/Unread — numbers that are lost because their text is not read

An operator key commits the number that the entry is read as (`expression_operator_eq_iff`), and
takes an entry that is not read for none at all: it then overwrites the operator that was waiting
for the number.  Keys make such entries in two ways.  The digits of a number that is too great are
typed (`expression_press_numeral_operator`), or a point is typed after a number that the calculator
put into the entry with an exponent part or as a word (`press_point_fresh`).
-/

namespace Keypad

/-! ## Numbers too great -/

/-- The numeral of a whole number. -/
def Numeral.ofWhole (k : ℕ) : Numeral where
  sign := none
  whole := Digit.spell k
  fraction := none
  scale := none
  digits_ne_nil := List.append_ne_nil_of_left_ne_nil (Digit.spell_ne_nil k) _

theorem Numeral.value_ofWhole (k : ℕ) : (ofWhole k).value = k := by
  simp [value, ofWhole, isNegative, fractionDigits, power, Digit.value_nil, Digit.value_spell]

namespace Calculator

variable {c : Calculator} {n : Numeral}

/-- An operator key commits the number that the numeral before it is read as. -/
theorem expression_press_operator_eq_iff (ho : c.expression.IsOpen) (he : c.entry = "")
    (hsign : n.sign = none) (hscale : n.scale = none) {op : Operator} {x : Binary64} :
    (c.press (n.keys ++ [Key.operator op])).expression = c.expression.extended x op ↔
      n.toBinary64? = some x := by
  have hexpr : (c.press n.keys).expression = c.expression := expression_press_numeral c n
  have hopen : (c.press n.keys).expression.IsOpen := hexpr ▸ ho
  rw [press_append_operator, ← number?_press_numeral he hsign hscale, ← hexpr]
  exact expression_operator_eq_iff hopen

/-- After a numeral that is not read an operator key does what it would have done before. -/
theorem expression_press_operator_of_eq_none (he : c.entry = "") (hsign : n.sign = none)
    (hscale : n.scale = none) (hnone : n.toBinary64? = none) (op : Operator) :
    (c.press (n.keys ++ [Key.operator op])).expression = (c.operator op).expression := by
  rw [← number?_press_numeral he hsign hscale] at hnone
  rw [press_append_operator, expression_operator_of_number?_eq_none hnone,
    expression_operator_of_number?_eq_none (number?_of_entry_eq he), expression_press_numeral]

/-- **A number typed is committed exactly if it is not too great**, rounded.  Otherwise the operator
key does what it would have done before the number was typed. -/
theorem expression_press_numeral_operator (hc : c.Reachable) (he : c.entry = "")
    (hsign : n.sign = none) (hscale : n.scale = none) (op : Operator) :
    ((∃ x, (c.press (n.keys ++ [Key.operator op])).expression = c.expression.extended x op) ↔
      n.value < Magnitude.overflowBound) ∧
    (∀ x, (c.press (n.keys ++ [Key.operator op])).expression = c.expression.extended x op →
      Binary64.Rounds n.value x) ∧
    (Magnitude.overflowBound ≤ n.value →
      (c.press (n.keys ++ [Key.operator op])).expression = (c.operator op).expression) := by
  have hcommit : ∀ x, (c.press (n.keys ++ [Key.operator op])).expression
      = c.expression.extended x op ↔ n.toBinary64? = some x := fun _ =>
    expression_press_operator_eq_iff hc.isOpen he hsign hscale
  have hnone : n.toBinary64? = none ↔ Magnitude.overflowBound ≤ n.value := by
    rw [Numeral.toBinary64?_eq_none_iff, abs_of_nonneg (Numeral.value_nonneg_of_sign_eq_none hsign)]
  refine ⟨?_, fun x hx => ?_, fun hgreat => ?_⟩
  · rw [exists_congr hcommit, ← Option.ne_none_iff_exists', ne_eq, hnone, not_le]
  · exact (Numeral.toBinary64?_eq_some_iff_rounds.1 ((hcommit x).1 hx)).1
  · exact expression_press_operator_of_eq_none he hsign hscale (hnone.2 hgreat) op

/-- A calculator that has a six and a division sign committed. -/
def sixOver : Calculator := fresh.press ((Numeral.ofWhole 6).keys ++ [Key.operator .divide])

theorem reachable_sixOver : sixOver.Reachable :=
  Reachable.fresh.run (List.map Key.action _)

/-- A one with 308 zeros is committed. -/
theorem expression_press_numeral_operator_zeros :
    sixOver.entry = "" ∧ (Numeral.ofWhole (10 ^ 308)).value < Magnitude.overflowBound ∧
      ∃ x, Binary64.Rounds (Numeral.ofWhole (10 ^ 308)).value x ∧
        (sixOver.press ((Numeral.ofWhole (10 ^ 308)).keys ++ [Key.operator .add])).expression
          = sixOver.expression.extended x .add := by
  have hentry : sixOver.entry = "" := by decide +kernel
  have hlt : (Numeral.ofWhole (10 ^ 308)).value < Magnitude.overflowBound := by
    have hnat : 10 ^ 308 + 2 ^ 970 < 2 ^ 1024 := by decide +kernel
    rw [Numeral.value_ofWhole, Magnitude.overflowBound, lt_sub_iff_add_lt]
    exact_mod_cast hnat
  obtain ⟨hcommitted, hrounds, -⟩ :=
    expression_press_numeral_operator reachable_sixOver hentry
      (n := Numeral.ofWhole (10 ^ 308)) rfl rfl .add
  obtain ⟨x, hx⟩ := hcommitted.2 hlt
  exact ⟨hentry, hlt, x, hrounds x hx, hx⟩

/-- A one with 309 zeros is lost, and the division sign with it: what is added next is added to the
six. -/
theorem press_zeros_lost :
    sixOver.Reachable ∧ sixOver.entry = "" ∧
      (∀ x, (sixOver.press ((Numeral.ofWhole (10 ^ 309)).keys ++ [Key.operator .add])).expression
        ≠ sixOver.expression.extended x .add) ∧
      (sixOver.press ((Numeral.ofWhole (10 ^ 309)).keys ++ [Key.operator .add])).expression
        = (fresh.press ((Numeral.ofWhole 6).keys ++ [Key.operator .add])).expression := by
  have hentry : sixOver.entry = "" := by decide +kernel
  have hnone : (Numeral.ofWhole (10 ^ 309)).toBinary64? = none := by
    rw [Numeral.toBinary64?_eq_none_iff, Numeral.value_ofWhole, Nat.abs_cast, Nat.cast_pow]
    exact Decimal.overflowBound_lt_ten_pow.le
  refine ⟨reachable_sixOver, hentry, fun x hx => ?_, ?_⟩
  · rw [expression_press_operator_eq_iff reachable_sixOver.isOpen hentry rfl rfl, hnone] at hx
    cases hx
  · rw [expression_press_operator_of_eq_none hentry rfl rfl hnone]
    decide +kernel

end Calculator

/-! ## Points after a number -/

namespace Binary64

/-- Where a text ends in a point, it is read as a numeral or not at all. -/
theorem ofSolidText?_concat_point (cs : List Char) :
    ofSolidText? (cs ++ ['.']) = (Numeral.ofChars? (cs ++ ['.'])).bind Numeral.toBinary64? := by
  have hne : ∀ word : List Char, '.' ∉ word → cs ++ ['.'] ≠ word := by
    rintro word hword rfl
    exact hword List.mem_concat_self
  rw [ofSolidText?, if_neg (hne _ (by decide)), if_neg (hne _ (by decide)),
    if_neg (hne _ (by decide))]

/-- **After a point a text is no longer read** unless it is a numeral without an exponent part. -/
theorem ofSolidText?_concat_point_eq_none {cs : List Char} {x : Binary64}
    (h : ofSolidText? cs = some x) (hcs : ∀ n : Numeral, n.scale = none → n.chars ≠ cs) :
    ofSolidText? (cs ++ ['.']) = none := by
  obtain ⟨rfl, -⟩ | ⟨rfl, -⟩ | ⟨rfl, -⟩ | ⟨n, rfl, -⟩ := ofSolidText?_eq_some_iff.1 h
  · decide +kernel
  · decide +kernel
  · decide +kernel
  · have hread : Numeral.ofChars? (n.chars ++ ['.']) = none :=
      Numeral.ofChars?_concat_point fun hscale => hcs n hscale rfl
    rw [ofSolidText?_concat_point, hread]
    rfl

end Binary64

namespace Calculator

variable {c : Calculator} {v : Binary64}

/-- A point changes nothing of what is read: there is one already, so that the key does nothing, or
the entry is a numeral without an exponent part. -/
def TakesPoint (c : Calculator) : Prop :=
  '.' ∈ c.entry.toList ∨ ∃ n : Numeral, n.scale = none ∧ n.chars = c.entry.toList

/-- An entry that is read is not empty. -/
theorem entry_ne_of_number? (hv : c.number? = some v) : c.entry ≠ "" := by
  intro hempty
  rw [number?_of_entry_eq hempty] at hv
  cases hv

/-- The entry has a point already, so that the point key leaves it. -/
theorem number?_point_of_mem (hv : c.number? = some v) (hpoint : '.' ∈ c.entry.toList) :
    c.point.number? = some v := by
  rw [← hv, number?, number?, point, entry_withEntry, pointed, if_neg (entry_ne_of_number? hv),
    if_pos hpoint]

theorem entry_point_of_not_mem (hv : c.number? = some v) (hpoint : '.' ∉ c.entry.toList) :
    c.point.entry.toList = c.entry.toList ++ ['.'] := by
  rw [point, entry_withEntry, pointed, if_neg (entry_ne_of_number? hv), if_neg hpoint,
    String.toList_push]

theorem number?_point_of_takesPoint (hv : c.number? = some v) (h : c.TakesPoint) :
    c.point.number? = some v := by
  by_cases hpoint : '.' ∈ c.entry.toList
  · exact number?_point_of_mem hv hpoint
  · obtain ⟨n, hscale, hn⟩ := h.resolve_left hpoint
    have hfraction : n.fraction = none :=
      Numeral.fraction_eq_none_of_not_mem (hn ▸ hpoint)
    have hentry : c.point.entry.toList = n.withPoint.chars := by
      rw [entry_point_of_not_mem hv hpoint, Numeral.chars_withPoint hfraction hscale, hn]
    rw [number?_of_entry_eq_chars hentry, Numeral.toBinary64?_withPoint,
      ← number?_of_entry_eq_chars hn.symm, hv]

/-- What the calculator shows is no longer read after a point that the entry does not take.  There
is no white space in it, before the point or after. -/
theorem number?_point_eq_none (hstaged : IsStaged c.entry.toList) (hv : c.number? = some v)
    (h : ¬c.TakesPoint) : c.point.number? = none := by
  obtain ⟨hpoint, hnumeral⟩ := not_or.1 h
  have hread : Binary64.ofSolidText? c.entry.toList = some v := by
    rw [← hv, number?, Binary64.ofText?, hstaged.trim_eq]
  rw [number?, Binary64.ofText?, entry_point_of_not_mem hv hpoint,
    (hstaged.concat_point hpoint).trim_eq]
  exact Binary64.ofSolidText?_concat_point_eq_none hread fun n hscale hn => hnumeral ⟨n, hscale, hn⟩

/-- **A point after a number that is read keeps it exactly if the entry takes a point.**  Otherwise
the number is gone, and an operator key does what it would have done with an empty entry. -/
theorem press_point_fresh (keys : List Key) (hv : (fresh.press keys).number? = some v) :
    ((fresh.press (keys ++ [.point])).number? = some v ↔ (fresh.press keys).TakesPoint) ∧
    (∀ op, (fresh.press (keys ++ [.point] ++ [Key.operator op])).expression
        = (fresh.press keys).expression.extended v op ↔ (fresh.press keys).TakesPoint) ∧
    (¬(fresh.press keys).TakesPoint →
      (fresh.press (keys ++ [.point])).number? = none ∧
      ∀ op, (fresh.press (keys ++ [.point] ++ [Key.operator op])).expression
        = (((fresh.press keys).withEntry "").operator op).expression) := by
  set c := fresh.press keys
  have hstaged : IsStaged c.entry.toList := isStaged_press (c := fresh) .nil keys
  have hopen : c.point.expression.IsOpen := (Reachable.fresh.run (keys.map Key.action)).isOpen
  have hpoint : fresh.press (keys ++ [.point]) = c.point := fresh.press_append keys _
  have hiff : c.point.number? = some v ↔ c.TakesPoint := by
    refine ⟨fun hread => ?_, number?_point_of_takesPoint hv⟩
    by_contra hnot
    rw [number?_point_eq_none hstaged hv hnot] at hread
    cases hread
  refine ⟨?_, fun op => ?_, fun hnot => ⟨?_, fun op => ?_⟩⟩
  · rw [hpoint, hiff]
  · rw [press_append_operator, hpoint, ← hiff]
    exact expression_operator_eq_iff hopen
  · rw [hpoint, number?_point_eq_none hstaged hv hnot]
  · rw [press_append_operator, hpoint,
      expression_operator_of_number?_eq_none (number?_point_eq_none hstaged hv hnot),
      expression_operator_of_number?_eq_none (number?_of_entry_eq rfl)]
    rfl

/-- Keys that leave a power of ten in the entry, with an exponent part and without a point. -/
def sextillionKeys : List Key := (Numeral.ofWhole (10 ^ 21)).keys ++ [Key.equals]

/-- Keys that leave a number in the entry with an exponent part and a point. -/
def oneAndAHalfSextillionKeys : List Key := (Numeral.ofWhole (15 * 10 ^ 20)).keys ++ [Key.equals]

/-- Keys that leave the reciprocal of zero in the entry. -/
def infinityKeys : List Key := (Numeral.ofWhole 0).keys ++ [Key.transform .reciprocal]

/-- There is a point in `1.5e+21`, so that the key does nothing. -/
theorem press_point_fresh_taken :
    (fresh.press oneAndAHalfSextillionKeys).entry = "1.5e+21" ∧
      ∃ v, (fresh.press oneAndAHalfSextillionKeys).number? = some v ∧
        (fresh.press (oneAndAHalfSextillionKeys ++ [.point])).number? = some v ∧
        (fresh.press (oneAndAHalfSextillionKeys ++ [.point] ++ [Key.operator .multiply])).expression
          = (fresh.press oneAndAHalfSextillionKeys).expression.extended v .multiply := by
  have hentry : (fresh.press oneAndAHalfSextillionKeys).entry = "1.5e+21" := by decide +kernel
  have htakes : (fresh.press oneAndAHalfSextillionKeys).TakesPoint := by
    left
    rw [hentry]
    decide
  have hsome : (fresh.press oneAndAHalfSextillionKeys).number?.isSome = true := by decide +kernel
  obtain ⟨v, hv⟩ := Option.isSome_iff_exists.1 hsome
  obtain ⟨hread, hcommit, -⟩ := press_point_fresh oneAndAHalfSextillionKeys hv
  exact ⟨hentry, v, hv, hread.2 htakes, (hcommit .multiply).2 htakes⟩

/-- There is no point in `1e+21` and none in `Infinity`; with one they are no longer read, and
nothing is committed. -/
theorem press_point_lost :
    (fresh.press sextillionKeys).entry = "1e+21" ∧
      (fresh.press sextillionKeys).number?.isSome = true ∧
      (fresh.press (sextillionKeys ++ [.point])).number? = none ∧
      (fresh.press (sextillionKeys ++ [.point] ++ [Key.operator .multiply])).expression = .empty ∧
    (fresh.press infinityKeys).number? = some (.infinite false) ∧
      (fresh.press (infinityKeys ++ [.point])).number? = none ∧
      (fresh.press (infinityKeys ++ [.point] ++ [Key.operator .add])).expression = .empty := by
  decide +kernel

end Calculator

end Keypad
