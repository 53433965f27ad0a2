import Keypad.Proofs.Key.Spelling

/-!
# Proofs/Key/Layout — the parts of a script

A script that reads falls into gaps at its start and one **stroke** for each key: a spelling of the
key with the gaps after it.  Every such layout is read as its keys, no text has two layouts, and a
text without one is not read (`read_eq_ok_iff_layout`).
-/

namespace Keypad.Script

/-! ## Layouts -/

/-- A key with one of its spellings and the gaps after it. -/
@[ext] structure Stroke where
  key : Key
  name : String
  gaps : List Char
  name_mem : name ∈ key.spellings
  isGap_of_mem : ∀ c ∈ gaps, isGap c = true

/-- The text of a stroke. -/
def Stroke.text (s : Stroke) : List Char := s.name.toList ++ s.gaps

/-- The text of strokes in a row. -/
def strokesText (ss : List Stroke) : List Char := ss.flatMap Stroke.text

/-- The parts of a script: the gaps at its start, and its strokes. -/
@[ext] structure Layout where
  gaps : List Char
  strokes : List Stroke
  isGap_of_mem : ∀ c ∈ gaps, isGap c = true

namespace Layout

/-- The text of a layout. -/
def text (l : Layout) : List Char := l.gaps ++ strokesText l.strokes

/-- The keys of a layout. -/
def keys (l : Layout) : List Key := l.strokes.map Stroke.key

end Layout

theorem strokesText_cons (s : Stroke) (ss : List Stroke) :
    strokesText (s :: ss) = s.name.toList ++ (s.gaps ++ strokesText ss) := by
  rw [strokesText, List.flatMap_cons, Stroke.text, List.append_assoc]
  rfl

/-! ## A text spells keys just where it has a layout -/

theorem Spells.gaps_append {gaps cs : List Char} {ks : List Key}
    (hg : ∀ c ∈ gaps, isGap c = true) (h : Spells cs ks) : Spells (gaps ++ cs) ks := by
  induction gaps with
  | nil => exact h
  | cons c gaps ih =>
    have hrest : Spells (gaps ++ cs) ks := ih fun d hd => hg d (List.mem_cons_of_mem c hd)
    exact .gap (hg c List.mem_cons_self) hrest

theorem spells_strokesText (ss : List Stroke) :
    Spells (strokesText ss) (ss.map Stroke.key) := by
  induction ss with
  | nil => exact .nil
  | cons s ss ih =>
    rw [strokesText_cons]
    exact .key s.name_mem (ih.gaps_append s.isGap_of_mem)

/-- The text of a layout spells its keys. -/
theorem Layout.spells (l : Layout) : Spells l.text l.keys :=
  (spells_strokesText l.strokes).gaps_append l.isGap_of_mem

/-- A text that spells keys has a layout with these keys: before a further stroke, the gaps in front
go to that stroke. -/
theorem Spells.exists_layout {cs : List Char} {ks : List Key} (h : Spells cs ks) :
    ∃ l : Layout, l.text = cs ∧ l.keys = ks := by
  induction h with
  | nil => exact ⟨⟨[], [], by simp⟩, rfl, rfl⟩
  | @gap c cs ks hc _ ih =>
    obtain ⟨l, rfl, rfl⟩ := ih
    exact ⟨⟨c :: l.gaps, l.strokes, List.forall_mem_cons.2 ⟨hc, l.isGap_of_mem⟩⟩, rfl, rfl⟩
  | @key k name cs ks hname _ ih =>
    obtain ⟨l, rfl, rfl⟩ := ih
    exact ⟨⟨[], ⟨k, name, l.gaps, hname, l.isGap_of_mem⟩ :: l.strokes, by simp⟩,
      strokesText_cons _ _, rfl⟩

/-! ## No text has two layouts -/

theorem takeWhile_isGap_append {gaps rest : List Char} (hg : ∀ c ∈ gaps, isGap c = true)
    (hr : rest.head?.any isGap = false) : (gaps ++ rest).takeWhile isGap = gaps := by
  rw [List.takeWhile_append_of_pos hg]
  cases rest with
  | nil => simp
  | cons c rest =>
    have hc : isGap c = false := hr
    simp [hc]

/-- Gaps end where the first other character stands. -/
theorem gaps_append_inj {g g' r r' : List Char} (hg : ∀ c ∈ g, isGap c = true)
    (hg' : ∀ c ∈ g', isGap c = true) (hr : r.head?.any isGap = false)
    (hr' : r'.head?.any isGap = false) (h : g ++ r = g' ++ r') : g = g' ∧ r = r' := by
  have hgaps : g = g' := by
    rw [← takeWhile_isGap_append hg hr, h, takeWhile_isGap_append hg' hr']
  subst hgaps
  exact ⟨rfl, List.append_cancel_left h⟩

theorem Stroke.mem_table (s : Stroke) : (s.name.toList, s.key) ∈ Key.table :=
  Key.mem_table_iff.2 ⟨s.name, s.name_mem, rfl⟩

theorem Stroke.toList_name_ne_nil (s : Stroke) : s.name.toList ≠ [] :=
  Key.spelling_ne_nil _ s.mem_table

theorem strokesText_cons_ne_nil (s : Stroke) (ss : List Stroke) :
    strokesText (s :: ss) ≠ [] := by
  rw [strokesText_cons]
  exact List.append_ne_nil_of_left_ne_nil s.toList_name_ne_nil _

/-- The text of a stroke begins with its spelling, which no gap begins. -/
theorem head?_strokesText (ss : List Stroke) : (strokesText ss).head?.any isGap = false := by
  cases ss with
  | nil => rfl
  | cons s ss =>
    obtain ⟨c, cs, hname⟩ := List.exists_cons_of_ne_nil s.toList_name_ne_nil
    have hc : isGap c = false := by simpa [hname] using any_isGap_head? _ s.mem_table
    rw [strokesText_cons, hname]
    exact hc

/-- Since no spelling begins another, the first key and what follows it are determined. -/
theorem name_append_inj {s s' : Stroke} {r r' : List Char}
    (h : s.name.toList ++ r = s'.name.toList ++ r') :
    s.key = s'.key ∧ s.name = s'.name ∧ r = r' := by
  have hread : Key.read? (s.name.toList ++ r) = some (s.key, r) :=
    Key.read?_eq_some_iff.2 ⟨s.name, s.name_mem, rfl⟩
  have hread' : Key.read? (s'.name.toList ++ r') = some (s'.key, r') :=
    Key.read?_eq_some_iff.2 ⟨s'.name, s'.name_mem, rfl⟩
  rw [h, hread'] at hread
  obtain ⟨hkey, hr⟩ := Prod.mk.inj (Option.some.inj hread)
  subst hr
  exact ⟨hkey.symm, String.toList_inj.1 (List.append_cancel_right h), rfl⟩

theorem strokesText_injective {ss ss' : List Stroke} (h : strokesText ss = strokesText ss') :
    ss = ss' := by
  induction ss generalizing ss' with
  | nil =>
    cases ss' with
    | nil => rfl
    | cons s' ss' => exact absurd h.symm (strokesText_cons_ne_nil s' ss')
  | cons s ss ih =>
    cases ss' with
    | nil => exact absurd h (strokesText_cons_ne_nil s ss)
    | cons s' ss' =>
      rw [strokesText_cons, strokesText_cons] at h
      obtain ⟨hkey, hname, hrest⟩ := name_append_inj h
      obtain ⟨hgaps, htext⟩ := gaps_append_inj s.isGap_of_mem s'.isGap_of_mem
        (head?_strokesText ss) (head?_strokesText ss') hrest
      rw [Stroke.ext hkey hname hgaps, ih htext]

/-- **A layout is determined by its text.** -/
theorem Layout.text_injective {l l' : Layout} (h : l.text = l'.text) : l = l' := by
  obtain ⟨hgaps, htext⟩ := gaps_append_inj l.isGap_of_mem l'.isGap_of_mem
    (head?_strokesText l.strokes) (head?_strokesText l'.strokes) h
  exact Layout.ext hgaps (strokesText_injective htext)

/-! ## Reading a layout -/

/-- **Reading accepts the texts of layouts**, and gives their keys: a text is read as keys just
where it has a layout with these keys, the text of every layout is read as its keys, and no text has
two layouts. -/
theorem read_eq_ok_iff_layout :
    (∀ (source : String) (ks : List Key),
        read source = .ok ks ↔ ∃ l : Layout, l.text = source.toList ∧ l.keys = ks) ∧
      (∀ l : Layout, read (String.ofList l.text) = .ok l.keys) ∧
      ∀ l l' : Layout, l.text = l'.text → l = l' := by
  refine ⟨fun source ks => ⟨fun h => ?_, ?_⟩, fun l => ?_, fun l l' h => ?_⟩
  · exact (read_eq_ok_iff.1 h).exists_layout
  · rintro ⟨l, htext, rfl⟩
    exact read_eq_ok_iff.2 (htext ▸ l.spells)
  · rw [read_eq_ok_iff, String.toList_ofList]
    exact l.spells
  · exact Layout.text_injective h

end Keypad.Script
