import Keypad.Proofs.Calculator.LowerLine

/-!
# Proofs/Calculator/Agreement — the display never influences what a calculator computes

Two calculators that hold the same entry, expression and pending operator do so after every action,
whatever their displays show: no action reads the display.  Their lines come together one by one,
the upper line with the first action that redraws it in any case and the lower line with the first
event.  `Agrees` carries all of this through a run, with what is known of the two lines as
propositions that grow (`Agrees.perform`, `Agrees.run`).

In a reachable calculator the expression determines the pending operator, so two of them that agree
on entry and expression compute alike under every continuation (`computesLike_of_reachable`).  A
calculation that failed leaves neither entry nor expression: after it a calculator computes like a
fresh one.
-/

namespace Keypad.Calculator

variable {c d : Calculator} {upper lower : Prop} {ps : List (Binary64 × Operator)}

/-! ## Agreement -/

/-- Two calculators hold the same entry, expression and pending operator.  They show the same upper
line if `upper` holds, and the same lower line if `lower` does. -/
structure Agrees (c d : Calculator) (upper lower : Prop) : Prop where
  entry_eq : c.entry = d.entry
  expression_eq : c.expression = d.expression
  pending_eq : c.pending = d.pending
  upper_eq : upper → c.display.upper = d.display.upper
  lower_eq : lower → c.display.lower = d.display.lower

namespace Agrees

theorem refl (c : Calculator) : c.Agrees c upper lower :=
  ⟨rfl, rfl, rfl, fun _ => rfl, fun _ => rfl⟩

/-- Less may be known of the lines. -/
theorem mono {upper' lower' : Prop} (h : c.Agrees d upper lower) (hupper : upper' → upper)
    (hlower : lower' → lower) : c.Agrees d upper' lower' :=
  ⟨h.entry_eq, h.expression_eq, h.pending_eq, h.upper_eq ∘ hupper, h.lower_eq ∘ hlower⟩

theorem number?_eq (h : c.Agrees d upper lower) : c.number? = d.number? := by
  rw [number?, number?, h.entry_eq]

/-! ### What each action keeps -/

/-- A new entry, made from the one before it, brings the upper lines together. -/
theorem withEntry (h : c.Agrees d upper lower) (f : String → String) :
    (c.withEntry (f c.entry)).Agrees (d.withEntry (f d.entry)) True lower := by
  rw [← h.entry_eq]
  exact ⟨rfl, h.expression_eq, h.pending_eq, fun _ => rfl, h.lower_eq⟩

theorem commit (h : c.Agrees d upper lower) : c.commit.Agrees d.commit upper lower := by
  unfold Calculator.commit
  rw [← h.number?_eq, ← h.entry_eq]
  split
  · exact ⟨rfl, by rw [h.expression_eq], h.pending_eq, h.upper_eq, h.lower_eq⟩
  · split
    · exact h
    · exact (h.withEntry fun _ => "").mono (fun _ => trivial) id

theorem transform (h : c.Agrees d upper lower) (t : Transform) :
    (c.transform t).Agrees (d.transform t) upper lower := by
  unfold Calculator.transform
  rw [← h.number?_eq]
  split
  · exact (h.withEntry fun _ => _).mono (fun _ => trivial) id
  · exact h

theorem operator (h : c.Agrees d upper lower) (op : Operator) :
    (c.operator op).Agrees (d.operator op) upper lower := by
  unfold Calculator.operator
  rw [← h.commit.expression_eq]
  split
  · exact ⟨h.commit.entry_eq, rfl, rfl, fun _ => rfl, h.commit.lower_eq⟩
  · exact h.commit

/-- **The two calculate the same.** -/
theorem outcome?_eq (h : c.Agrees d upper lower) : c.outcome? = d.outcome? := by
  rw [outcome?, outcome?, h.commit.expression_eq]

/-- A calculation that is finished brings both lines together. -/
theorem equals (h : c.Agrees d upper lower) :
    c.equals.Agrees d.equals upper (lower ∨ (c.event? .equals).isSome = true) := by
  unfold Calculator.equals
  rw [← h.outcome?_eq, event?]
  cases c.outcome? with
  | none => exact h.commit.mono id (by simp)
  | some o => exact refl _

end Agrees

/-! ## Runs -/

/-- Whether an action rewrites the upper line, whatever the calculator holds. -/
def Action.redraws : Action → Bool
  | .type _ | .point | .backspace | .clear => true
  | .operator _ | .equals | .transform _ => false

/-- **An action keeps agreement, and adds to it what it writes.** -/
theorem Agrees.perform (h : c.Agrees d upper lower) (a : Action) :
    (c.perform a).Agrees (d.perform a) (upper ∨ a.redraws = true)
      (lower ∨ (c.event? a).isSome = true) := by
  cases a with
  | type ch => exact (h.withEntry (·.push ch)).mono (fun _ => trivial) (by simp [event?])
  | point => exact (h.withEntry pointed).mono (fun _ => trivial) (by simp [event?])
  | backspace =>
    exact (h.withEntry fun entry => String.ofList entry.toList.dropLast).mono (fun _ => trivial)
      (by simp [event?])
  | operator op => exact (h.operator op).mono (by simp [Action.redraws]) (by simp [event?])
  | equals => exact h.equals.mono (by simp [Action.redraws]) id
  | clear => exact .refl _
  | transform t => exact (h.transform t).mono (by simp [Action.redraws]) (by simp [event?])

/-- **A run keeps agreement, and adds to it what its actions write.**  What is known of the lines
grows with every action, so it varies in the induction. -/
theorem Agrees.run (h : c.Agrees d upper lower) (actions : List Action) :
    (c.run actions).Agrees (d.run actions) (upper ∨ ∃ a ∈ actions, a.redraws = true)
      (lower ∨ c.events actions ≠ []) := by
  induction actions generalizing c d upper lower with
  | nil => exact h.mono (by simp) (by simp [events])
  | cons a actions ih =>
    refine (ih (h.perform a)).mono ?_ ?_
    · rintro (hupper | ⟨b, hb, hredraws⟩)
      · exact Or.inl (Or.inl hupper)
      · rcases List.mem_cons.1 hb with rfl | hb
        · exact Or.inl (Or.inr hredraws)
        · exact Or.inr ⟨b, hb, hredraws⟩
    · rw [events]
      rcases c.event? a with _ | e
      · exact fun hlower => hlower.imp_left Or.inl
      · exact fun _ => Or.inl (Or.inr rfl)

/-- Whatever is done to both calculators, they hold the same afterwards and would calculate the
same.  From the first action that redraws the upper line they show the same there, and
from the first event the same on the lower line. -/
structure ComputesLike (c d : Calculator) : Prop where
  agrees (actions : List Action) : (c.run actions).Agrees (d.run actions)
    (∃ a ∈ actions, a.redraws = true) (c.events actions ≠ [])
  outcome?_eq (actions : List Action) : (c.run actions).outcome? = (d.run actions).outcome?

theorem Agrees.computesLike (h : c.Agrees d False False) : c.ComputesLike d :=
  ⟨fun actions => (h.run actions).mono Or.inr Or.inr, fun actions => (h.run actions).outcome?_eq⟩

/-! ## Reachable calculators -/

/-- The pending operator is the one at the end of the expression. -/
theorem HasCommitted.trailingOperator?_eq (h : c.HasCommitted ps) :
    c.expression.trailingOperator? = c.pending := by
  rw [h.expression_eq, h.pending_eq]
  obtain rfl | ⟨qs, ⟨x, op⟩, rfl⟩ := List.eq_nil_or_concat' ps
  · rfl
  · rw [Expression.ofPairs_concat, List.getLast?_concat]
    simp [Expression.trailingOperator?]

/-- In reachable calculators the entry and the expression are all that need to agree. -/
theorem Reachable.agrees (hc : c.Reachable) (hd : d.Reachable) (hentry : c.entry = d.entry)
    (hexpression : c.expression = d.expression) : c.Agrees d False False := by
  obtain ⟨ps, hps⟩ := hc.exists_hasCommitted
  obtain ⟨qs, hqs⟩ := hd.exists_hasCommitted
  refine ⟨hentry, hexpression, ?_, False.elim, False.elim⟩
  rw [← hps.trailingOperator?_eq, ← hqs.trailingOperator?_eq, hexpression]

/-- **The display does not influence what is computed.**  Reachable calculators with the same entry
and expression compute alike, whatever they show; and after a division by zero a calculator computes
like a fresh one. -/
theorem computesLike_of_reachable (hc : c.Reachable) (hd : d.Reachable) :
    (c.entry = d.entry → c.expression = d.expression → c.ComputesLike d) ∧
      ∀ i, c.outcome? = some (.error (.divisionByZero i)) → c.equals.ComputesLike fresh := by
  refine ⟨fun hentry hexpression => (hc.agrees hd hentry hexpression).computesLike, fun i hi => ?_⟩
  have hequals : c.equals = ⟨"", .empty, none, ⟨"Error", "Error"⟩⟩ := by
    rw [equals, hi]
    rfl
  have hreach : c.equals.Reachable := hc.perform .equals
  apply Agrees.computesLike
  apply hreach.agrees .fresh
  · rw [hequals]
    rfl
  · rw [hequals]
    rfl

/-- The calculator that is to divide by zero, with another result on its lower line. -/
def dividingAgain : Calculator :=
  fresh.run [.type '9', .equals, .backspace, .type '5', .operator .divide, .type '0',
    .operator .add, .type '-']

theorem computesLike_of_reachable_dividing :
    dividing.display ≠ dividingAgain.display ∧ dividing.ComputesLike dividingAgain ∧
      dividing.outcome? = some (.error (.divisionByZero 1)) ∧
      dividing.equals.ComputesLike fresh := by
  have hdividing : dividing.Reachable := Reachable.fresh.run _
  have hagain : dividingAgain.Reachable := Reachable.fresh.run _
  have hentry : dividing.entry = dividingAgain.entry := by decide +kernel
  have hexpression : dividing.expression = dividingAgain.expression := by decide +kernel
  have hdisplay : dividing.display ≠ dividingAgain.display := by decide +kernel
  have hcommit : dividing.commit.expression =
      ⟨[.number (.ofNat 5), .operator .divide, .number (.zero false), .operator .add]⟩ := by
    decide +kernel
  have houtcome : dividing.outcome? = some (.error (.divisionByZero 1)) := by
    rw [outcome?, hcommit]
    rfl
  obtain ⟨hsame, hafter⟩ := computesLike_of_reachable hdividing hagain
  exact ⟨hdisplay, hsame hentry hexpression, houtcome, hafter 1 houtcome⟩

end Keypad.Calculator
