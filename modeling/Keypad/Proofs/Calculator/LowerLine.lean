import Keypad.Proofs.Binary64.RoundTrip
import Keypad.Proofs.Calculator.Equals

/-!
# Proofs/Calculator/LowerLine — the lower line reports the last calculation

Two kinds of **events** reach the lower line: a calculation that the equals key finishes, and the
clear key.  No other action writes to it, an equals key with nothing to calculate included
(`lower_perform`).  So after a run it reports the latest event, however long ago that was
(`lower_run`), and it always holds a number or the word for an error (`lower_run_fresh`).
-/

namespace Keypad

/-- The line of an outcome is never empty. -/
theorem Outcome.line_ne_empty (o : Outcome) : o.line ≠ "" := by
  cases o with
  | ok v => exact v.text_ne_empty
  | error _ => exact (by decide : Display.errorLine ≠ "")

namespace Calculator

/-! ## Events -/

/-- What the lower line reports: the outcome of a calculation that is finished, or that everything
is cleared. -/
inductive Event where
  | finished (o : Outcome)
  | cleared

/-- The line that reports an event. -/
def Event.line : Event → String
  | finished o => o.line
  | cleared => Display.blankLine

/-- The event that an action on a calculator is, if it is one; the equals key is one only if there
is something to calculate. -/
def event? (c : Calculator) : Action → Option Event
  | .equals => c.outcome?.map .finished
  | .clear => some .cleared
  | _ => none

/-- The events of a run, in their order. -/
def events (c : Calculator) : List Action → List Event
  | [] => []
  | a :: actions => (c.event? a).toList ++ (c.perform a).events actions

theorem Event.line_ne_empty (e : Event) : e.line ≠ "" := by
  cases e with
  | finished o => exact o.line_ne_empty
  | cleared => decide

/-! ## What is written to the lower line -/

theorem lower_operator (c : Calculator) (op : Operator) :
    (c.operator op).display.lower = c.display.lower := by
  unfold operator
  split
  · exact c.lower_commit
  · exact c.lower_commit

theorem lower_transform (c : Calculator) (t : Transform) :
    (c.transform t).display.lower = c.display.lower := by
  unfold transform
  split <;> rfl

/-- The equals key leaves the lower line if it calculates nothing. -/
theorem lower_equals (c : Calculator) :
    c.equals.display.lower = c.outcome?.elim c.display.lower Outcome.line := by
  rw [equals]
  cases c.outcome? with
  | none => exact c.lower_commit
  | some o => rfl

/-- **An action leaves the lower line, unless it is an event.** -/
theorem lower_perform (c : Calculator) (a : Action) :
    (c.perform a).display.lower = (c.event? a).elim c.display.lower Event.line := by
  cases a with
  | type ch => rfl
  | point => rfl
  | backspace => rfl
  | operator op => exact c.lower_operator op
  | equals =>
    rw [event?, Option.elim_map]
    exact c.lower_equals
  | clear => rfl
  | transform t => exact c.lower_transform t

/-! ## Runs -/

/-- **After a run the lower line reports the latest event**, which is in the rest of the run or else
the first action; with none it is what it was. -/
theorem lower_run (c : Calculator) (actions : List Action) :
    (c.run actions).display.lower
      = (c.events actions).getLast?.elim c.display.lower Event.line := by
  induction actions generalizing c with
  | nil => rfl
  | cons a actions ih =>
    rw [run_cons, ih, lower_perform, events, List.getLast?_append]
    cases (events (c.perform a) actions).getLast? with
    | some e => rfl
    | none => cases c.event? a <;> rfl

/-- **The lower line reports the last calculation.**  It is blank if there was no event, or if the
latest one is that everything was cleared; else it shows the number that the latest calculation
gave, or the word for an error.  Unless it is that word, it reads as a number. -/
theorem lower_run_fresh (actions : List Action) :
    (((fresh.events actions).getLast? = none ∨ (fresh.events actions).getLast? = some .cleared) ∧
        (fresh.run actions).display.lower = "0" ∨
      (∃ v, (fresh.events actions).getLast? = some (.finished (.ok v)) ∧
        (fresh.run actions).display.lower = v.text) ∨
      ∃ fault, (fresh.events actions).getLast? = some (.finished (.error fault)) ∧
        (fresh.run actions).display.lower = "Error") ∧
    ((fresh.run actions).display.lower = "Error" ∨
      (Binary64.ofText? (fresh.run actions).display.lower).isSome = true) := by
  have hzero : (Binary64.ofText? "0").isSome = true := by decide +kernel
  rw [lower_run]
  rcases (fresh.events actions).getLast? with _ | ((fault | v) | _)
  · exact ⟨Or.inl ⟨Or.inl rfl, rfl⟩, Or.inr hzero⟩
  · exact ⟨Or.inr (Or.inr ⟨fault, rfl, rfl⟩), Or.inl rfl⟩
  · refine ⟨Or.inr (Or.inl ⟨v, rfl, rfl⟩), Or.inr ?_⟩
    change (Binary64.ofText? v.text).isSome = true
    rw [Binary64.ofText?_text]
    rfl
  · exact ⟨Or.inl ⟨Or.inr rfl, rfl⟩, Or.inr hzero⟩

end Calculator

end Keypad
