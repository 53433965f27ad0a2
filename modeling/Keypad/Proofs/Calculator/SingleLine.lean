import Keypad.Calculator.Script
import Keypad.Proofs.Calculator.UpperLine

/-!
# Proofs/Calculator/SingleLine — a line break is shown only if it is typed

The texts of numbers, of expressions and of errors hold no line break, and all else that the display
shows comes from the entry.  So the entry carries the argument: unless a line break is typed, it
holds none after any actions (`Reachable.showsState` then speaks for the upper line, the latest
event for the lower one).  Keys type digits only, so a script is answered with two single lines
(`isLine_of_runScript`).
-/

namespace Keypad

/-- A text that fills one line: it is not empty and holds no line break. -/
structure IsLine (s : String) : Prop where
  ne_empty : s ≠ ""
  not_mem : '\n' ∉ s.toList

/-! ## Texts without a line break -/

theorem Display.isLine_blankLine : IsLine blankLine := ⟨by decide, by decide +kernel⟩

theorem Display.isLine_errorLine : IsLine errorLine := ⟨by decide, by decide +kernel⟩

/-- The text of a number holds no line break. -/
theorem Binary64.not_mem_text (x : Binary64) : '\n' ∉ x.text.toList := fun h =>
  Bool.false_ne_true (x.isWhiteSpace_of_mem_text h |>.symm.trans (by decide))

theorem Binary64.isLine_text (x : Binary64) : IsLine x.text := ⟨x.text_ne_empty, x.not_mem_text⟩

theorem Token.not_mem_text (t : Token) : '\n' ∉ t.text.toList := fun h =>
  Bool.false_ne_true (t.isWhiteSpace_of_mem_text h |>.symm.trans (by decide))

/-- Texts are joined by spaces, so no line break comes in between them. -/
theorem not_mem_intercalate_texts : ∀ ts : List Token,
    '\n' ∉ [' '].intercalate ((ts.map Token.text).map String.toList)
  | [] => by simp
  | [t] => by simpa using t.not_mem_text
  | t :: u :: ts => by
    have hrest := not_mem_intercalate_texts (u :: ts)
    rw [List.map_cons, List.map_cons] at hrest ⊢
    rw [List.map_cons, List.map_cons, List.intercalate_cons_cons, List.mem_append, List.mem_append]
    rintro ((h | h) | h)
    · exact t.not_mem_text h
    · exact absurd h (by decide)
    · exact hrest h

theorem Expression.not_mem_text (e : Expression) : '\n' ∉ e.text.toList := by
  rw [text, String.toList_intercalate]
  exact not_mem_intercalate_texts e.tokens

namespace Calculator

variable {c : Calculator}

/-! ## Actions

Only a character that is typed can bring a line break into the entry. -/

/-- **An action leaves an entry without a line break**, unless it types one. -/
theorem not_mem_entry_perform (h : '\n' ∉ c.entry.toList) {a : Action} (ha : a ≠ .type '\n') :
    '\n' ∉ (c.perform a).entry.toList := by
  cases a with
  | type ch =>
    change '\n' ∉ (c.entry.push ch).toList
    rw [String.toList_push, List.mem_append, List.mem_singleton]
    rintro (hmem | rfl)
    · exact h hmem
    · exact ha rfl
  | point =>
    change '\n' ∉ (pointed c.entry).toList
    unfold pointed
    split
    · decide +kernel
    · split
      · exact h
      · rw [String.toList_push]
        simpa using h
  | backspace =>
    change '\n' ∉ (String.ofList c.entry.toList.dropLast).toList
    rw [String.toList_ofList]
    exact fun hmem => h (List.mem_of_mem_dropLast hmem)
  | operator op =>
    change '\n' ∉ (c.operator op).entry.toList
    rw [entry_operator]
    exact List.not_mem_nil
  | equals =>
    change '\n' ∉ c.equals.entry.toList
    obtain hempty | ⟨x, hx⟩ := c.entry_equals_cases
    · rw [hempty]
      exact List.not_mem_nil
    · rw [hx]
      exact x.not_mem_text
  | clear => exact List.not_mem_nil
  | transform t =>
    change '\n' ∉ (c.transform t).entry.toList
    obtain hsame | ⟨x, hx⟩ := c.entry_transform_cases t
    · rwa [hsame]
    · rw [hx]
      exact x.not_mem_text

/-! ## Runs -/

/-- Without a line break being typed, none comes into the entry. -/
theorem not_mem_entry_run (h : '\n' ∉ c.entry.toList) {actions : List Action}
    (ha : .type '\n' ∉ actions) : '\n' ∉ (c.run actions).entry.toList := by
  induction actions generalizing c with
  | nil => exact h
  | cons a actions ih =>
    have hfirst : a ≠ .type '\n' := fun he => ha (he ▸ List.mem_cons_self)
    have hrest : .type '\n' ∉ actions := fun hmem => ha (List.mem_cons_of_mem a hmem)
    exact ih (not_mem_entry_perform h hfirst) hrest

/-- The upper line is single if the entry is. -/
theorem ShowsState.not_mem_upper (h : c.ShowsState) (hentry : '\n' ∉ c.entry.toList) :
    '\n' ∉ c.display.upper.toList := by
  cases h with
  | entry _ upper => rwa [upper]
  | blank _ upper => rw [upper]; exact Display.isLine_blankLine.not_mem
  | expression _ _ upper => rw [upper]; exact Expression.not_mem_text _
  | fault _ _ upper _ => rw [upper]; exact Display.isLine_errorLine.not_mem

theorem Event.isLine_line (e : Event) : IsLine e.line := by
  cases e with
  | cleared => exact Display.isLine_blankLine
  | finished o =>
    cases o with
    | ok x => exact x.isLine_text
    | error _ => exact Display.isLine_errorLine

/-- **Without a line break being typed, the display shows two single lines.** -/
theorem isLine_run {actions : List Action} (h : .type '\n' ∉ actions) :
    IsLine (fresh.run actions).display.upper ∧ IsLine (fresh.run actions).display.lower := by
  have hshows : (fresh.run actions).ShowsState := (Reachable.fresh.run actions).showsState
  have hentry : '\n' ∉ (fresh.run actions).entry.toList :=
    not_mem_entry_run List.not_mem_nil h
  refine ⟨⟨hshows.upper_ne_empty, hshows.not_mem_upper hentry⟩, ?_⟩
  rw [lower_run]
  rcases (fresh.events actions).getLast? with _ | e
  · exact Display.isLine_blankLine
  · exact e.isLine_line

/-- Keys type digits. -/
theorem type_not_mem_actions {ch : Char} (h : Digit.ofChar? ch = none) (keys : List Key) :
    .type ch ∉ keys.map Key.action := by
  rintro hmem
  obtain ⟨k, -, hk⟩ := List.mem_map.1 hmem
  cases k with
  | digit d =>
    obtain rfl : d.char = ch := Action.type.inj hk
    rw [Digit.ofChar?_char] at h
    cases h
  | _ => cases hk

end Calculator

/-- **A script is answered with two single lines.** -/
theorem isLine_of_runScript {source : String} {d : Display} (h : runScript source = .ok d) :
    IsLine d.upper ∧ IsLine d.lower := by
  cases hread : Script.read source with
  | error e =>
    rw [runScript_of_read_error hread] at h
    cases h
  | ok keys =>
    rw [runScript_of_read hread] at h
    obtain rfl := Except.ok.inj h
    exact Calculator.isLine_run (Calculator.type_not_mem_actions (by decide) keys)

end Keypad
