import Keypad.Calculator.Script
import Keypad.Proofs.Key.Spelling

/-!
# Proofs/Key/Unknown — where a text stops being a script, and what is reported of it

A text that spells no keys falls in one way into a part that does and a rest that begins with
neither a gap nor a spelling (`SplitsAt`).  Reading reports the place where that rest begins and a
part of it that is told without reference to the reader (`Reports`): a character, or a name in
brackets as far as it goes (`read_eq_error_of_not_spells`).
-/

namespace Keypad.Script

/-! ## The split at the first unknown text -/

/-- The text begins with something that is neither a gap nor the spelling of a key. -/
structure BeginsUnknown (r : List Char) : Prop where
  ne_nil : r ≠ []
  not_isGap : ∀ c ∈ r.head?, isGap c = false
  not_spelling : ∀ k : Key, ∀ name ∈ k.spellings, ¬ name.toList <+: r

/-- The text falls into a part that spells keys and a rest that begins with something unknown. -/
structure SplitsAt (cs p r : List Char) : Prop where
  append_eq : p ++ r = cs
  exists_spells : ∃ ks, Spells p ks
  beginsUnknown : BeginsUnknown r

/-- Nothing is read where something unknown begins. -/
theorem BeginsUnknown.readKeys_eq {r : List Char} (h : BeginsUnknown r) :
    readKeys r = ([], r) := by
  obtain ⟨c, rest, rfl⟩ := List.exists_cons_of_ne_nil h.ne_nil
  refine readKeys_unknown (h.not_isGap c rfl) ?_
  rcases hread : Key.read? (c :: rest) with _ | ⟨k, after⟩
  · rfl
  · obtain ⟨name, hname, he⟩ := Key.read?_eq_some_iff.1 hread
    exact absurd ⟨after, he⟩ (h.not_spelling k name hname)

/-- Reading goes on until something unknown begins. -/
theorem beginsUnknown_readKeys {cs : List Char} (h : (readKeys cs).2 ≠ []) :
    BeginsUnknown (readKeys cs).2 := by
  fun_induction readKeys cs with
  | case1 => exact absurd rfl h
  | case2 c rest hc ih => exact ih h
  | case3 c rest hc key after hread _ ih => exact ih h
  | case4 c rest hc hread =>
    refine ⟨h, ?_, fun k name hname => ?_⟩
    · rintro d ⟨⟩
      exact Bool.eq_false_iff.2 hc
    · rintro ⟨after, he⟩
      rw [Key.read?_eq_some_iff.2 ⟨name, hname, he⟩] at hread
      cases hread

theorem SplitsAt.readKeys_snd {cs p r : List Char} (h : SplitsAt cs p r) :
    (readKeys cs).2 = r := by
  obtain ⟨ks, hks⟩ := h.exists_spells
  rw [← h.append_eq, readKeys_append hks, h.beginsUnknown.readKeys_eq]

/-- A text that splits spells no keys. -/
theorem SplitsAt.not_spells {cs p r : List Char} (h : SplitsAt cs p r) (ks : List Key) :
    ¬ Spells cs ks := by
  intro hks
  have hr := h.readKeys_snd
  rw [readKeys_eq_iff.2 hks] at hr
  exact h.beginsUnknown.ne_nil hr.symm

/-- **A text that spells no keys splits where something unknown begins.** -/
theorem exists_splitsAt {cs : List Char} (h : ∀ ks, ¬ Spells cs ks) :
    ∃ p r, SplitsAt cs p r := by
  obtain ⟨p, hp, hspells⟩ := exists_spells cs
  refine ⟨p, (readKeys cs).2, hp, ⟨_, hspells⟩, beginsUnknown_readKeys fun hnil => ?_⟩
  exact h _ (readKeys_eq_iff.1 (Prod.ext rfl hnil))

/-- **No text splits in two ways.** -/
theorem SplitsAt.unique {cs p r p' r' : List Char} (h : SplitsAt cs p r)
    (h' : SplitsAt cs p' r') : p' = p ∧ r' = r := by
  have hr : r' = r := h'.readKeys_snd.symm.trans h.readKeys_snd
  subst hr
  exact ⟨List.append_cancel_right (h'.append_eq.trans h.append_eq.symm), rfl⟩

/-! ## What is reported of an unknown text -/

/-- Whether a name in brackets goes on with a character: it is neither the closing bracket nor white
space. -/
def isNameChar (c : Char) : Bool := c ≠ ']' && !Text.isWhiteSpace c

/-- The part of an unknown text that is reported: its first character or, if that is a bracket, the
name in brackets, with its closing bracket, or cut off before white space or at the end. -/
inductive Reports : List Char → List Char → Prop
  | single {c : Char} {rest : List Char} : c ≠ '[' → Reports (c :: rest) [c]
  | closed {name rest : List Char} : name.all isNameChar = true →
      Reports ('[' :: (name ++ ']' :: rest)) ('[' :: (name ++ [']']))
  | cut {name rest : List Char} {c : Char} : name.all isNameChar = true →
      Text.isWhiteSpace c = true → Reports ('[' :: (name ++ c :: rest)) ('[' :: name)
  | unclosed {name : List Char} : name.all isNameChar = true → Reports ('[' :: name) ('[' :: name)

theorem bracketedRest_append {name : List Char} (h : name.all isNameChar = true)
    (rest : List Char) : bracketedRest (name ++ rest) = name ++ bracketedRest rest := by
  induction name with
  | nil => rfl
  | cons c name ih =>
    obtain ⟨hc, hname⟩ : isNameChar c = true ∧ name.all isNameChar = true := by simpa using h
    obtain ⟨hclose, hspace⟩ : c ≠ ']' ∧ Text.isWhiteSpace c = false := by
      simpa [isNameChar] using hc
    rw [List.cons_append, bracketedRest, if_neg hclose, if_neg (by simp [hspace]), ih hname]
    rfl

theorem unknownText_bracket (rest : List Char) :
    unknownText ('[' :: rest) = '[' :: bracketedRest rest := rfl

theorem unknownText_of_ne {c : Char} (h : c ≠ '[') (rest : List Char) :
    unknownText (c :: rest) = [c] := by
  unfold unknownText
  split
  · rename_i heq
    cases heq
  · rename_i heq
    exact absurd (List.cons.inj heq).1 h
  · rename_i heq
    rw [(List.cons.inj heq).1]

theorem isNameChar_eq_false_iff {c : Char} :
    isNameChar c = false ↔ c = ']' ∨ Text.isWhiteSpace c = true := by
  rw [Decidable.or_iff_not_imp_left]
  simp [isNameChar]

/-- White space closes no name. -/
theorem bracketedRest_of_isWhiteSpace {c : Char} (h : Text.isWhiteSpace c = true)
    (rest : List Char) : bracketedRest (c :: rest) = [] := by
  have hclose : c ≠ ']' := by
    rintro rfl
    exact absurd h (by decide)
  rw [bracketedRest, if_neg hclose, if_pos h]

/-- **The reader reports what is to be reported.** -/
theorem Reports.unknownText_eq {r key : List Char} (h : Reports r key) : unknownText r = key := by
  cases h with
  | single hc => exact unknownText_of_ne hc _
  | closed hname =>
    rw [unknownText_bracket, bracketedRest_append hname, bracketedRest, if_pos rfl]
  | cut hname hspace =>
    rw [unknownText_bracket, bracketedRest_append hname, bracketedRest_of_isWhiteSpace hspace,
      List.append_nil]
  | unclosed hname =>
    have hrest := bracketedRest_append hname []
    rw [List.append_nil, bracketedRest, List.append_nil] at hrest
    rw [unknownText_bracket, hrest]

/-- Something is to be reported of every text that is not empty: its first character, or the name up
to the first character that cannot stand in one. -/
theorem exists_reports {r : List Char} (h : r ≠ []) : ∃ key, Reports r key := by
  obtain ⟨c, rest, rfl⟩ := List.exists_cons_of_ne_nil h
  by_cases hc : c = '['
  · subst hc
    have hname : (rest.takeWhile isNameChar).all isNameChar = true := List.all_takeWhile
    have hrest : rest.takeWhile isNameChar ++ rest.dropWhile isNameChar = rest :=
      List.takeWhile_append_dropWhile
    rw [← hrest]
    rcases hend : rest.dropWhile isNameChar with _ | ⟨d, after⟩
    · rw [List.append_nil]
      exact ⟨_, .unclosed hname⟩
    · have hd : isNameChar d = false := by
        simpa [hend] using List.head?_dropWhile_not isNameChar rest
      rcases isNameChar_eq_false_iff.1 hd with rfl | hspace
      · exact ⟨_, .closed hname⟩
      · exact ⟨_, .cut hname hspace⟩
  · exact ⟨_, .single hc⟩

theorem Reports.ne_nil {r key : List Char} (h : Reports r key) : key ≠ [] := by
  cases h <;> exact List.cons_ne_nil _ _

theorem Reports.isPrefix {r key : List Char} (h : Reports r key) : key <+: r := by
  cases h with
  | single _ => exact ⟨_, rfl⟩
  | @closed name rest _ => exact ⟨rest, by simp⟩
  | cut _ _ => exact ⟨_, rfl⟩
  | unclosed _ => exact List.prefix_rfl

/-! ## The error of a script -/

/-- The error counts the characters before the unknown text and holds the part to be reported. -/
theorem SplitsAt.read_eq {source : String} {p r key : List Char}
    (h : SplitsAt source.toList p r) (hkey : Reports r key) :
    read source = .error ⟨String.ofList key, p.length + 1⟩ := by
  have hlength : source.toList.length - r.length = p.length := by
    rw [← h.append_eq, List.length_append, Nat.add_sub_cancel]
  rw [read, h.readKeys_snd, if_neg h.beginsUnknown.ne_nil, hkey.unknownText_eq, hlength]

/-- **A text that spells no keys is refused at the first unknown text in it.**  It splits there, in
no other way; the error, of reading and of running alike, has the column one beyond the characters
before the split, and reports one part of the rest, which is not empty and stands at its front. -/
theorem read_eq_error_of_not_spells {source : String}
    (h : ∀ ks, ¬ Spells source.toList ks) :
    ∃ p r key, SplitsAt source.toList p r ∧
      (∀ p' r', SplitsAt source.toList p' r' → p' = p ∧ r' = r) ∧
      Reports r key ∧ (∀ key', Reports r key' → key' = key) ∧ key ≠ [] ∧ key <+: r ∧
      read source = .error ⟨String.ofList key, p.length + 1⟩ ∧
      runScript source = .error ⟨String.ofList key, p.length + 1⟩ := by
  obtain ⟨p, r, hsplit⟩ := exists_splitsAt h
  obtain ⟨key, hkey⟩ := exists_reports hsplit.beginsUnknown.ne_nil
  have hread := hsplit.read_eq hkey
  refine ⟨p, r, key, hsplit, fun p' r' h' => hsplit.unique h', hkey, fun key' hkey' => ?_,
    hkey.ne_nil, hkey.isPrefix, hread, runScript_of_read_error hread⟩
  rw [← hkey.unknownText_eq, hkey'.unknownText_eq]

/-- The keys end after `7*` and a line feed.  The name in brackets is cut off before the no-break
space, which is white space although it is no gap. -/
theorem read_eq_error_of_not_spells_noBreak :
    (∀ ks, ¬ Spells "7*\n[Entrée\u00a0]".toList ks) ∧
      read "7*\n[Entrée\u00a0]" = .error ⟨"[Entrée", 4⟩ ∧
      runScript "7*\n[Entrée\u00a0]" = .error ⟨"[Entrée", 4⟩ := by
  have hkeys : Spells "7*\n".toList (readKeys "7*\n".toList).1 :=
    readKeys_eq_iff.1 (by decide +kernel)
  have hunread : (readKeys "[Entrée\u00a0]".toList).2 = "[Entrée\u00a0]".toList := by
    decide +kernel
  have hunknown : BeginsUnknown "[Entrée\u00a0]".toList :=
    hunread ▸ beginsUnknown_readKeys (by decide +kernel)
  have hsplit : SplitsAt "7*\n[Entrée\u00a0]".toList "7*\n".toList "[Entrée\u00a0]".toList :=
    ⟨by decide +kernel, ⟨_, hkeys⟩, hunknown⟩
  have hkey : unknownText "[Entrée\u00a0]".toList = "[Entrée".toList := by decide +kernel
  obtain ⟨p, r, key, -, hsplits, hreports, -, -, -, hread, hrun⟩ :=
    read_eq_error_of_not_spells hsplit.not_spells
  obtain ⟨rfl, rfl⟩ := hsplits _ _ hsplit
  obtain rfl := hkey.symm.trans hreports.unknownText_eq
  exact ⟨hsplit.not_spells, hread, hrun⟩

end Keypad.Script
