import Keypad.Calculator.Script
import Keypad.Proofs.Calculator.Due
import Keypad.Proofs.Expression.Precedence
import Keypad.Proofs.Key.Spelling
import Keypad.Proofs.Numeral.Point

/-!
# Proofs/Calculator/Infix — a script of operands and operators computes what it spells

An **infix script** is a row of operands with one operator key or more between neighbours, any
operator keys before and after, and the equals key at its end.  However its keys are spelled and
spaced, running it shows the value of the chain of its operands, joined by the last operator of each
run (`runScript_infix`).  The proof follows what is due for evaluation: an operand adds its number
to it, a run of operators its last operator.
-/

namespace Keypad

/-! ## Numerals and operands -/

namespace Numeral

/-- The keys from the point on. -/
def fractionKeys : Option (List Digit) → List Key
  | none => []
  | some ds => .point :: ds.map .digit

/-- The keys that type the digits of a numeral and its point. -/
def keys (n : Numeral) : List Key := n.whole.map .digit ++ fractionKeys n.fraction

end Numeral

/-- What is typed for one number: digits with one point at most, and a digit on one side of it at
least.  Its text spells a number. -/
structure Operand where
  whole : List Digit
  fraction : Option (List Digit)
  digits_ne_nil : whole ++ fraction.getD [] ≠ []
  value : Binary64
  reads : Binary64.ofText?
    (String.ofList (Digit.chars whole ++ Numeral.fractionChars fraction)) = some value

namespace Operand

/-- The numeral that is typed. -/
def numeral (o : Operand) : Numeral := ⟨none, o.whole, o.fraction, none, o.digits_ne_nil⟩

/-- The numeral of an operand is read as its value. -/
theorem toBinary64?_numeral (o : Operand) : o.numeral.toBinary64? = some o.value := by
  have htext : Digit.chars o.whole ++ Numeral.fractionChars o.fraction = o.numeral.chars := by
    simp [numeral, Numeral.chars, Sign.chars, Numeral.scaleChars]
  rw [← Binary64.ofText?_chars, ← htext]
  exact o.reads

end Operand

namespace Calculator

/-! ## Typing a numeral -/

theorem press_cons (c : Calculator) (k : Key) (ks : List Key) :
    c.press (k :: ks) = (c.perform k.action).press ks := rfl

theorem press_append_operator (c : Calculator) (keys : List Key) (op : Operator) :
    c.press (keys ++ [Key.operator op]) = (c.press keys).operator op := c.press_append keys _

/-- Digits are added to the entry. -/
theorem entry_press_digits (c : Calculator) (ds : List Digit) :
    (c.press (ds.map .digit)).entry.toList = c.entry.toList ++ Digit.chars ds := by
  induction ds generalizing c with
  | nil => simp [press, Digit.chars]
  | cons d ds ih =>
    rw [List.map_cons, press_cons, ih]
    simp [Key.action, perform, type, Digit.chars]

theorem expression_press_digits (c : Calculator) (ds : List Digit) :
    (c.press (ds.map .digit)).expression = c.expression := by
  induction ds generalizing c with
  | nil => rfl
  | cons d ds ih =>
    rw [List.map_cons, press_cons, ih]
    rfl

/-- The point after digits alone, or a zero and the point. -/
theorem entry_point_press_digits {c : Calculator} (h : c.entry = "") (ds : List Digit) :
    (c.press (ds.map .digit)).point.entry.toList
      = Digit.chars (if ds = [] then Digit.spell 0 else ds) ++ ['.'] := by
  have hentry := entry_press_digits c ds
  rw [h] at hentry
  by_cases hds : ds = []
  · subst hds
    change (pointed c.entry).toList = _
    rw [h, if_pos rfl, Digit.spell_zero]
    rfl
  · have hne : (c.press (ds.map .digit)).entry ≠ "" := by
      intro he
      rw [he] at hentry
      simp [Digit.chars, hds] at hentry
    have hmem : '.' ∉ (c.press (ds.map .digit)).entry.toList := by
      rw [hentry]
      exact Digit.not_mem_chars (by decide) ds
    change (pointed (c.press (ds.map .digit)).entry).toList = _
    rw [pointed, if_neg hne, if_neg hmem, String.toList_push, hentry, if_neg hds]
    simp

/-- **The keys of a numeral leave its text**, with a zero before a point that comes first. -/
theorem entry_press_numeral {c : Calculator} (h : c.entry = "") {n : Numeral}
    (hsign : n.sign = none) (hscale : n.scale = none) :
    (c.press n.keys).entry.toList = n.led.chars := by
  have hled : n.led.chars = Digit.chars (if n.whole = [] then Digit.spell 0 else n.whole)
      ++ Numeral.fractionChars n.fraction := by
    simp [Numeral.chars, Numeral.led, hsign, hscale, Sign.chars, Numeral.scaleChars]
  rw [hled, Numeral.keys, press_append]
  rcases hf : n.fraction with _ | ds
  · have hne : n.whole ≠ [] := by simpa [hf] using n.digits_ne_nil
    change (c.press (n.whole.map .digit)).entry.toList = _
    rw [entry_press_digits, h, if_neg hne, Numeral.fractionChars, List.append_nil]
    rfl
  · rw [Numeral.fractionKeys, press_cons, entry_press_digits]
    change (c.press (n.whole.map .digit)).point.entry.toList ++ _ = _
    rw [entry_point_press_digits h, List.append_assoc]
    rfl

/-- What is typed on an empty entry is read as the numeral that was meant. -/
theorem number?_press_numeral {c : Calculator} (h : c.entry = "") {n : Numeral}
    (hsign : n.sign = none) (hscale : n.scale = none) :
    (c.press n.keys).number? = n.toBinary64? := by
  rw [number?_of_entry_eq_chars (entry_press_numeral h hsign hscale), Numeral.toBinary64?_led]

theorem expression_press_numeral (c : Calculator) (n : Numeral) :
    (c.press n.keys).expression = c.expression := by
  rw [Numeral.keys, press_append]
  rcases n.fraction with _ | ds
  · exact expression_press_digits c n.whole
  · rw [Numeral.fractionKeys, press_cons, expression_press_digits]
    exact expression_press_digits c n.whole

/-- **An operand typed on an empty entry is read as its value.** -/
theorem number?_press_operand {c : Calculator} (h : c.entry = "") (o : Operand) :
    (c.press o.numeral.keys).number? = some o.value := by
  rw [number?_press_numeral h rfl rfl, o.toBinary64?_numeral]

/-- An operand typed on an empty entry adds its number to the expression that is due. -/
theorem due_press_operand {c : Calculator} (h : c.entry = "") (o : Operand) :
    (c.press o.numeral.keys).due = c.expression.tokens ++ [.number o.value] := by
  rw [due_of_number? (number?_press_operand h o), expression_press_numeral]

theorem isOpen_press_numeral {c : Calculator} (h : c.expression.IsOpen) (n : Numeral) :
    (c.press n.keys).expression.IsOpen := by
  rw [expression_press_numeral]
  exact h

/-! ## Pressing operators -/

/-- Operators with nothing before them do nothing. -/
theorem press_operators_of_empty {c : Calculator} (h : c.entry = "")
    (he : c.expression = Expression.empty) (ops : List Operator) :
    c.press (ops.map .operator) = c := by
  induction ops with
  | nil => rfl
  | cons op ops ih =>
    rw [List.map_cons, press_cons]
    change (c.operator op).press _ = c
    rw [operator_of_empty h he, ih]

/-- Operators leave what is due. -/
theorem due_press_operators {c : Calculator} (h : c.expression.IsOpen) (hd : c.due ≠ [])
    (ops : List Operator) :
    (c.press (ops.map .operator)).due = c.due ∧
      (c.press (ops.map .operator)).expression.IsOpen := by
  induction ops generalizing c with
  | nil => exact ⟨rfl, h⟩
  | cons op ops ih =>
    have hdue : (c.operator op).due = c.due := due_operator h hd op
    have hne : (c.operator op).due ≠ [] := by rwa [hdue]
    rw [List.map_cons, press_cons, ← hdue]
    exact ih (isOpen_operator h hd op) hne

end Calculator

/-! ## Infix scripts -/

/-- Operator keys pressed in a row, one at least. -/
structure OperatorRun where
  earlier : List Operator
  last : Operator

/-- The keys of a run of operators. -/
def OperatorRun.keys (r : OperatorRun) : List Key := (r.earlier ++ [r.last]).map .operator

/-- A row of operands, each two of them with operators between, with operators before and after. -/
structure Infix where
  leading : List Operator
  first : Operand
  rest : List (OperatorRun × Operand)
  trailing : List Operator

namespace Infix

/-- The keys of runs of operators with the operands to their right. -/
def restKeys (rest : List (OperatorRun × Operand)) : List Key :=
  rest.flatMap fun p => p.1.keys ++ p.2.numeral.keys

/-- The keys of an infix script, with the equals key at the end. -/
def keys (s : Infix) : List Key :=
  s.leading.map .operator ++
    (s.first.numeral.keys ++ (restKeys s.rest ++ (s.trailing.map .operator ++ [.equals])))

/-- The chain that an infix script spells: its operands with the last operator of each run between
them. -/
def chain (s : Infix) : Chain := ⟨s.first.value, s.rest.map fun p => (p.1.last, p.2.value)⟩

end Infix

namespace Calculator

/-- **A run of operators commits what is due with its last operator.** -/
theorem press_operatorRun {c : Calculator} (h : c.expression.IsOpen) (hd : c.due ≠ [])
    (r : OperatorRun) :
    (c.press r.keys).expression = ⟨c.due ++ [.operator r.last]⟩ ∧ (c.press r.keys).entry = "" := by
  obtain ⟨hdue, hopen⟩ := due_press_operators h hd r.earlier
  have hne : (c.press (r.earlier.map .operator)).due ≠ [] := by rwa [hdue]
  rw [OperatorRun.keys, List.map_append, press_append]
  refine ⟨?_, entry_operator _ _⟩
  rw [← hdue]
  exact expression_operator hopen hne r.last

theorem tokens_concat (x y : Binary64) (rest : List (Operator × Binary64)) (op : Operator) :
    Chain.tokens ⟨x, rest ++ [(op, y)]⟩
      = Chain.tokens ⟨x, rest⟩ ++ [.operator op] ++ [.number y] := by
  simp [Chain.tokens, Chain.restTokens]

/-- **Further operands go on the chain that is due**, each with the last operator before it. -/
theorem due_press_restKeys {c : Calculator} (h : c.expression.IsOpen) {x : Binary64}
    {done : List (Operator × Binary64)} (hd : c.due = Chain.tokens ⟨x, done⟩)
    (rest : List (OperatorRun × Operand)) :
    (c.press (Infix.restKeys rest)).due
        = Chain.tokens ⟨x, done ++ rest.map fun p => (p.1.last, p.2.value)⟩ ∧
      (c.press (Infix.restKeys rest)).expression.IsOpen := by
  induction rest generalizing c done with
  | nil =>
    rw [List.map_nil, List.append_nil]
    exact ⟨hd, h⟩
  | cons p rest ih =>
    obtain ⟨run, operand⟩ := p
    obtain ⟨hexpr, hentry⟩ := press_operatorRun h (by rw [hd]; exact List.cons_ne_nil _ _) run
    have hdue : ((c.press run.keys).press operand.numeral.keys).due
        = Chain.tokens ⟨x, done ++ [(run.last, operand.value)]⟩ := by
      rw [due_press_operand hentry, hexpr, hd, tokens_concat]
    have hopen : ((c.press run.keys).press operand.numeral.keys).expression.IsOpen :=
      isOpen_press_numeral (hexpr ▸ Expression.isOpen_operator _ _) operand.numeral
    rw [Infix.restKeys, List.flatMap_cons, press_append, press_append, List.map_cons,
      List.append_cons]
    exact ih hopen hdue

/-- **The keys of an infix script show the evaluation of its chain** on both lines. -/
theorem display_press_infix (s : Infix) :
    (fresh.press s.keys).display
      = ⟨(evaluate s.chain.tokens).line, (evaluate s.chain.tokens).line⟩ := by
  have hfirst : (fresh.press s.first.numeral.keys).due = Chain.tokens ⟨s.first.value, []⟩ :=
    due_press_operand rfl s.first
  obtain ⟨hrest, hopen⟩ := due_press_restKeys
    (isOpen_press_numeral Expression.isOpen_empty s.first.numeral) hfirst s.rest
  have hne : ((fresh.press s.first.numeral.keys).press (Infix.restKeys s.rest)).due ≠ [] := by
    rw [hrest]
    exact List.cons_ne_nil _ _
  obtain ⟨htrailing, hopen⟩ := due_press_operators hopen hne s.trailing
  rw [← htrailing] at hne
  rw [Infix.keys, press_append, press_operators_of_empty rfl rfl, press_append, press_append,
    press_append]
  change (equals _).display = _
  rw [display_equals hopen hne, htrailing, hrest]
  rfl

end Calculator

/-- **A script computes what it spells.**  The equals key shows the value of the operands joined by
the last operator of each run, or the word for an error if that divides by zero. -/
theorem runScript_infix (s : Infix) {source : String}
    (h : Script.Spells source.toList s.keys) :
    (∃ v, evaluate s.chain.tokens = .ok v ∧ runScript source = .ok ⟨v.text, v.text⟩) ∨
      ∃ i, evaluate s.chain.tokens = .error (.divisionByZero i) ∧
        runScript source = .ok ⟨"Error", "Error"⟩ := by
  have hrun := runScript_of_read (Script.read_eq_ok_iff.2 h)
  rw [Calculator.display_press_infix] at hrun
  rcases Chain.evaluate_tokens_cases s.chain with ⟨-, hv⟩ | ⟨i, -, hi⟩
  · rw [hv] at hrun
    exact Or.inl ⟨_, hv, hrun⟩
  · rw [hi] at hrun
    exact Or.inr ⟨i, hi, hrun⟩

/-- The digits at the front of a text. -/
def Operand.digitsOf (text : String) : List Digit := (Digit.span text.toList).1

/-- The operands `1.5`, `.5` and `4`, with more operators around them than count. -/
def Infix.sample : Infix where
  leading := [.multiply]
  first := ⟨Operand.digitsOf "1", some (Operand.digitsOf "5"), by decide,
    .ofBits 0x3FF8000000000000, by decide +kernel⟩
  rest :=
    [(⟨[.add, .divide], .subtract⟩, ⟨[], some (Operand.digitsOf "5"), by decide,
        .ofBits 0x3FE0000000000000, by decide +kernel⟩),
      (⟨[], .divide⟩, ⟨Operand.digitsOf "4", none, by decide,
        .ofBits 0x4010000000000000, by decide +kernel⟩)]
  trailing := [.add]

theorem runScript_infix_sample :
    Script.Spells "* 1[decimal]5 +/- .5\t/4+ [Enter]\n".toList Infix.sample.keys ∧
      ((∃ v, evaluate Infix.sample.chain.tokens = .ok v ∧
          runScript "* 1[decimal]5 +/- .5\t/4+ [Enter]\n" = .ok ⟨v.text, v.text⟩) ∨
        ∃ i, evaluate Infix.sample.chain.tokens = .error (.divisionByZero i) ∧
          runScript "* 1[decimal]5 +/- .5\t/4+ [Enter]\n" = .ok ⟨"Error", "Error"⟩) :=
  have h : Script.Spells "* 1[decimal]5 +/- .5\t/4+ [Enter]\n".toList Infix.sample.keys :=
    Script.readKeys_eq_iff.1 (by decide +kernel)
  ⟨h, runScript_infix Infix.sample h⟩

end Keypad
