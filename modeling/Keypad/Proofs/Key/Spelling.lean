import Keypad.Key.Script

/-!
# Proofs/Key/Spelling — which texts spell which keys

`Script.Spells cs ks` says that a text is a row of spellings of the keys `ks`, with gaps anywhere
between them.  Reading is the inverse of spelling (`read_eq_ok_iff`), and what is spelled at the
front of a text is read there, whatever follows (`readKeys_append`).
-/

namespace Keypad.Script

/-- A text spells keys: one spelling for each of them in their order, with any gaps around them. -/
inductive Spells : List Char → List Key → Prop
  | nil : Spells [] []
  | gap {c : Char} {cs : List Char} {ks : List Key} :
      isGap c = true → Spells cs ks → Spells (c :: cs) ks
  | key {k : Key} {name : String} {cs : List Char} {ks : List Key} :
      name ∈ k.spellings → Spells cs ks → Spells (name.toList ++ cs) (k :: ks)

/-- **What is spelled at the front of a text is read there**, whatever follows. -/
theorem readKeys_append {p : List Char} {ks : List Key} (h : Spells p ks) (r : List Char) :
    readKeys (p ++ r) = (ks ++ (readKeys r).1, (readKeys r).2) := by
  induction h with
  | nil => rfl
  | gap hc _ ih => rw [List.cons_append, readKeys_gap hc, ih]
  | key hname _ ih => rw [List.append_assoc, readKeys_spelling hname, ih, List.cons_append]

/-- The text before the first unknown one spells the keys that are read. -/
theorem exists_spells (cs : List Char) :
    ∃ p, p ++ (readKeys cs).2 = cs ∧ Spells p (readKeys cs).1 := by
  fun_induction readKeys cs with
  | case1 => exact ⟨[], rfl, .nil⟩
  | case2 c rest hc ih =>
    obtain ⟨p, hp, hs⟩ := ih
    exact ⟨c :: p, congrArg (c :: ·) hp, .gap hc hs⟩
  | case3 c rest hc key after hread _ ih =>
    obtain ⟨p, hp, hs⟩ := ih
    obtain ⟨name, hname, he⟩ := Key.read?_eq_some_iff.1 hread
    exact ⟨name.toList ++ p, by rw [List.append_assoc, hp, he], .key hname hs⟩
  | case4 c rest hc hread => exact ⟨[], rfl, .nil⟩

theorem readKeys_eq_iff {cs : List Char} {ks : List Key} :
    readKeys cs = (ks, []) ↔ Spells cs ks := by
  constructor
  · intro h
    obtain ⟨p, hp, hs⟩ := exists_spells cs
    rw [h, List.append_nil] at hp
    rwa [h, hp] at hs
  · intro h
    simpa using readKeys_append h []

/-- **Reading a script is the inverse of spelling it.** -/
theorem read_eq_ok_iff {source : String} {ks : List Key} :
    read source = .ok ks ↔ Spells source.toList ks := by
  rw [← readKeys_eq_iff, read]
  rcases hr : readKeys source.toList with ⟨keys, unread⟩
  by_cases hu : unread = []
  · simp [hu]
  · simp [hu]

end Keypad.Script
