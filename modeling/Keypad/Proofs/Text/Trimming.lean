import Keypad.Text.WhiteSpace

/-!
# Proofs/Text/Trimming — a trimmed text, told by its ends

`Text.IsTrimmed cs t` says that `t` is what remains of `cs` when white space is taken away at both
ends until none is left there.  There is one such text, and `Text.trim` gives it (`trim_eq_iff`).
-/

namespace Keypad.Text

/-- The text `t` is `cs` without the white space at its two ends. -/
structure IsTrimmed (cs t : List Char) : Prop where
  exists_ends : ∃ before after, before.all isWhiteSpace ∧ after.all isWhiteSpace ∧
    cs = before ++ t ++ after
  head_solid : ∀ c ∈ t.head?, isWhiteSpace c = false
  last_solid : ∀ c ∈ t.getLast?, isWhiteSpace c = false

/-- White space is trimmed at the start up to the first other character. -/
theorem trimStart_append {before t : List Char} (hb : before.all isWhiteSpace)
    (ht : ∀ c ∈ t.head?, isWhiteSpace c = false) : trimStart (before ++ t) = t := by
  rw [trimStart, List.dropWhile_append_of_pos fun c hc => List.all_eq_true.1 hb c hc]
  rcases t with _ | ⟨c, t⟩
  · rfl
  · exact List.dropWhile_cons_of_neg (Bool.eq_false_iff.1 (ht c rfl))

theorem head?_trimStart (cs : List Char) : ∀ c ∈ (trimStart cs).head?, isWhiteSpace c = false := by
  intro c hc
  have hhead := List.head?_dropWhile_not isWhiteSpace cs
  rw [show (cs.dropWhile isWhiteSpace).head? = some c from hc] at hhead
  exact hhead

theorem IsTrimmed.trim_eq {cs t : List Char} (h : IsTrimmed cs t) : trim cs = t := by
  obtain ⟨before, after, hb, ha, rfl⟩ := h.exists_ends
  rcases t with _ | ⟨c, t⟩
  · have hall : (before ++ [] ++ after).all isWhiteSpace := by
      rw [List.append_nil, List.all_append, hb, ha]
      rfl
    have hstart := trimStart_append (t := []) hall (fun c hc => by cases hc)
    rw [List.append_nil (before ++ [] ++ after)] at hstart
    rw [trim, hstart]
    rfl
  · have hhead : ∀ d ∈ (c :: t ++ after).head?, isWhiteSpace d = false := h.head_solid
    have hlast : ∀ d ∈ (c :: t).reverse.head?, isWhiteSpace d = false := by
      rw [List.head?_reverse]
      exact h.last_solid
    rw [trim, List.append_assoc, trimStart_append hb hhead, List.reverse_append,
      trimStart_append (by rwa [List.all_reverse]) hlast, List.reverse_reverse]

/-- Trimming at the end leaves a front part of the text, so no white space comes to its start. -/
theorem isTrimmed_trim (cs : List Char) : IsTrimmed cs (trim cs) := by
  refine ⟨exists_trim cs, fun c hc => ?_, fun c hc => ?_⟩
  · obtain ⟨after, -, hafter⟩ := exists_trimStart (trimStart cs).reverse
    have hfront : trimStart cs = trim cs ++ after.reverse := by
      rw [trim, ← List.reverse_append, ← hafter, List.reverse_reverse]
    refine head?_trimStart cs c ?_
    rw [hfront, List.head?_append, show (trim cs).head? = some c from hc]
    rfl
  · rw [trim, List.getLast?_reverse] at hc
    exact head?_trimStart _ c hc

/-- **Trimming takes away the white space at the two ends**, and nothing else. -/
theorem trim_eq_iff {cs t : List Char} : trim cs = t ↔ IsTrimmed cs t :=
  ⟨fun h => h ▸ isTrimmed_trim cs, IsTrimmed.trim_eq⟩

end Keypad.Text
