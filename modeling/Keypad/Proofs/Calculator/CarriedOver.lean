import Keypad.Proofs.Binary64.RoundTrip
import Keypad.Proofs.Calculator.Committed

/-!
# Proofs/Calculator/CarriedOver — a number that a calculator makes is not lost

What the equals key calculates and what a transform makes of the number being typed are kept as text
alone (`Makes.entry_perform`).  But the text of a number reads back as the number, with nothing lost
but the sign of a zero.  So the next operator commits the number, infinities and NaN included, and
the next equals key has it for its outcome (`carriedOver_of_makes`).
-/

namespace Keypad.Calculator

variable {c : Calculator} {a : Action} {v : Binary64}

/-- An action makes a number: the equals key the one that it calculates, a transform the one that it
puts in place of the number being typed. -/
inductive Makes (c : Calculator) : Action → Binary64 → Prop
  | equals {v : Binary64} (finished : c.outcome? = some (.ok v)) : Makes c .equals v
  | transform {x : Binary64} (typed : c.number? = some x) (t : Transform) :
      Makes c (.transform t) (t.apply x)

/-- **A number that is made becomes the entry**, as text. -/
theorem Makes.entry_perform (h : c.Makes a v) : (c.perform a).entry = v.text := by
  cases h with
  | equals finished =>
    change c.equals.entry = v.text
    rw [equals_of_outcome? finished]
    rfl
  | @transform x typed t =>
    change (c.transform t).entry = (t.apply x).text
    rw [Calculator.transform, typed]
    rfl

/-- An entry that is the text of a number spells the number, without the sign of a zero. -/
theorem number?_of_entry_eq_text (h : c.entry = v.text) : c.number? = some v.withoutZeroSign := by
  rw [number?, h]
  exact Binary64.ofText?_text v

/-- With a number typed and nothing committed, the equals key calculates that number. -/
theorem outcome?_of_expression_eq_empty (hx : c.number? = some v) (h : c.expression = .empty) :
    c.outcome? = some (.ok v) := by
  have hopen : c.expression.IsOpen := h ▸ Expression.isOpen_empty
  have hdue : c.due = Chain.tokens ⟨v, []⟩ := by
    rw [due_of_number? hx, h]
    rfl
  have hne : c.due ≠ [] := by
    rw [hdue]
    exact List.cons_ne_nil _ _
  rw [outcome?_of_due_ne_nil hopen hne, hdue, evaluate_tokens]
  rfl

/-- **A number that a reachable calculator makes is carried on.**  An operator right after it adds
the number and itself to the expression; with nothing committed, the equals key calculates the
number again.  Only a negative zero changes, to the other zero. -/
theorem carriedOver_of_makes (hc : c.Reachable) (h : c.Makes a v) :
    (∀ op, ((c.perform a).operator op).expression =
        ⟨(c.perform a).expression.tokens ++ [.number v.withoutZeroSign, .operator op]⟩) ∧
      ((c.perform a).expression = .empty →
        (c.perform a).outcome? = some (.ok v.withoutZeroSign)) := by
  have hx : (c.perform a).number? = some v.withoutZeroSign :=
    number?_of_entry_eq_text h.entry_perform
  refine ⟨fun op => ?_, outcome?_of_expression_eq_empty hx⟩
  obtain ⟨ps, hps⟩ := (hc.perform a).exists_hasCommitted
  rw [(hps.operator_of_number? hx op).expression_eq, Expression.ofPairs_concat, hps.expression_eq,
    List.append_assoc]
  rfl

/-- The reciprocal of zero is carried on as the infinity that it is. -/
theorem carriedOver_of_makes_infinity :
    (fresh.type '0').Reachable ∧ (fresh.type '0').Makes (.transform .reciprocal) (.infinite false) ∧
      (((fresh.type '0').perform (.transform .reciprocal)).operator .add).expression =
        ⟨[.number (.infinite false), .operator .add]⟩ ∧
      ((fresh.type '0').perform (.transform .reciprocal)).outcome? =
        some (.ok (.infinite false)) := by
  have hreach : (fresh.type '0').Reachable := Reachable.fresh.perform (.type '0')
  have hzero : (fresh.type '0').number? = some (.zero false) := by decide +kernel
  have hreciprocal : Transform.reciprocal.apply (.zero false) = .infinite false := by decide +kernel
  have hmakes : (fresh.type '0').Makes (.transform .reciprocal) (.infinite false) :=
    hreciprocal ▸ .transform hzero .reciprocal
  have hexpression :
      ((fresh.type '0').perform (.transform .reciprocal)).expression = .empty := by
    decide +kernel
  obtain ⟨hoperator, houtcome⟩ := carriedOver_of_makes hreach hmakes
  refine ⟨hreach, hmakes, ?_, houtcome hexpression⟩
  rw [hoperator, hexpression]
  rfl

end Keypad.Calculator
