import Keypad.Calculator.Script
import Keypad.Proofs.Key.Spelling

/-!
# Proofs/Key/Composition — a script after another, and a script after the clear key

Keys do not fuse at the seam of two texts: a text after one that spells keys is read as it is read
alone, with those keys before its own (`Script.read_append`).  Only the column of an unknown key
moves, by the characters in front.  A script after the clear key does what it does alone, since that
key leaves a fresh calculator whatever was pressed before (`runScript_append_clear`).
-/

namespace Keypad

/-- The same unknown key, with `n` more characters before it. -/
def UnknownKey.shift (n : Nat) (e : UnknownKey) : UnknownKey := ⟨e.text, e.column + n⟩

namespace Script

theorem length_readKeys_le (cs : List Char) : (readKeys cs).2.length ≤ cs.length := by
  obtain ⟨p, hp, -⟩ := exists_spells cs
  calc (readKeys cs).2.length ≤ (p ++ (readKeys cs).2).length := by simp
    _ = cs.length := by rw [hp]

/-- **A text after keys is read as it is read alone**, with the keys before its own, or with its
unknown key as many columns on as there are characters in front. -/
theorem read_append {a : String} {ka : List Key} (h : read a = .ok ka) (b : String) :
    read (a ++ b) = ((read b).map (ka ++ ·)).mapError (UnknownKey.shift a.length) := by
  have hkeys := readKeys_append (read_eq_ok_iff.1 h) b.toList
  have hle := length_readKeys_le b.toList
  rw [read, read, String.toList_append, hkeys]
  by_cases hu : (readKeys b.toList).2 = []
  · rw [if_pos hu, if_pos hu]
    rfl
  · have hcolumn : (a.toList ++ b.toList).length - (readKeys b.toList).2.length + 1
        = b.toList.length - (readKeys b.toList).2.length + 1 + a.length := by
      rw [List.length_append, String.length_toList]
      omega
    rw [if_neg hu, if_neg hu, hcolumn]
    rfl

/-- A spelling of a key is a script. -/
theorem read_spelling {k : Key} {name : String} (h : name ∈ k.spellings) : read name = .ok [k] := by
  rw [read_eq_ok_iff, ← List.append_nil name.toList]
  exact .key h .nil

end Script

/-- What is pressed before the clear key makes no difference. -/
theorem Calculator.press_append_clear (c : Calculator) (before after : List Key) :
    c.press (before ++ [.clear] ++ after) = fresh.press after := by
  rw [press_append, press_append]
  rfl

/-- **Scripts compose, and the clear key forgets what was before it.**  After a text that is read as
keys, every text is read as it is read alone, with those keys in front, and fails as it fails alone,
with its column moved.  With the clear key between the two, however it is spelled, the second text
shows what it shows alone. -/
theorem runScript_append_clear {a : String} {ka : List Key} (h : Script.read a = .ok ka)
    (b : String) :
    (Script.read (a ++ b) =
      match Script.read b with
      | .ok kb => .ok (ka ++ kb)
      | .error e => .error (e.shift a.length)) ∧
    ∀ name ∈ Key.clear.spellings, runScript (a ++ name ++ b) =
      match runScript b with
      | .ok display => .ok display
      | .error e => .error (e.shift (a ++ name).length) := by
  constructor
  · rw [Script.read_append h]
    cases Script.read b <;> rfl
  · intro name hname
    have hfront : Script.read (a ++ name) = .ok (ka ++ [.clear]) := by
      rw [Script.read_append h, Script.read_spelling hname]
      rfl
    have hread := Script.read_append hfront b
    cases hb : Script.read b with
    | error e =>
      rw [hb] at hread
      rw [runScript_of_read_error hb, runScript_of_read_error hread]
    | ok kb =>
      rw [hb] at hread
      rw [runScript_of_read hb, runScript_of_read hread, Calculator.press_append_clear]

/-- The first text divides by zero and ends within a line break; the second has a name without its
closing bracket, which the spelling of the clear key before it does not close. -/
theorem runScript_append_clear_lineBreak :
    Script.read "5/0=\r" = .ok [.digit 5, .operator .divide, .digit 0, .equals] ∧
      Script.read ("5/0=\r" ++ "\n 8 [CE") = .error ⟨"[CE", 10⟩ ∧
      runScript ("5/0=\r" ++ "[CE]" ++ "\n 8 [CE") = .error ⟨"[CE", 14⟩ := by
  have h : Script.read "5/0=\r" = .ok [.digit 5, .operator .divide, .digit 0, .equals] := by
    rw [Script.read_eq_ok_iff, ← Script.readKeys_eq_iff]
    decide +kernel
  have hunknown : Script.read "\n 8 [CE" = .error ⟨"[CE", 5⟩ := by
    rw [Script.read, if_neg (by decide +kernel)]
    exact congrArg Except.error (by decide +kernel)
  obtain ⟨hread, hrun⟩ := runScript_append_clear h "\n 8 [CE"
  have hrun := hrun "[CE]" (by decide +kernel)
  rw [hunknown] at hread
  rw [runScript_of_read_error hunknown] at hrun
  exact ⟨h, hread, hrun⟩

end Keypad
