import Keypad.CommandLine.Response
import Mathlib.Data.List.TakeWhile

/-!
# Proofs/CommandLine/Arguments — the grammar of argument lists

`Gathers args flags contents` says what an argument list stands for, without a word on how it is
taken in: each argument names a flag or has the letters of several, or else it is contents, and
after `--` all of them are.  Arguments are taken if their flags are new to the settings, none of
them asks for something else, and there is one argument of contents at most (`Settings.Adds`); no
matter where among the arguments each of these stands (`setArguments_eq_ok_iff`).  So the lists that
run a script are those of the grammar with single contents and each of the two flags at most once
(`readArguments_eq_run_iff`).
-/

namespace Keypad.CommandLine

/-! ## The grammar -/

/-- What an argument stands for before the end of the flags: the flag that it names or the flags of
its letters; or contents, if nothing follows a hyphen at its start. -/
inductive Gives : String → List Flag → List String → Prop
  | name (f : Flag) : Gives ("--" ++ f.name) [f] []
  | letters (f : Flag) (fs : List Flag) :
      Gives (String.ofList ('-' :: (f :: fs).map Flag.letter)) (f :: fs) []
  | contents {a : String} (h : ∀ c cs, a.toList ≠ '-' :: c :: cs) : Gives a [] [a]

/-- What an argument list stands for: flags and contents, in their order. -/
inductive Gathers : List String → List Flag → List String → Prop
  | nil : Gathers [] [] []
  | argument {a : String} {args : List String} {fs gs : List Flag} {cs ds : List String} :
      Gives a fs cs → Gathers args gs ds → Gathers (a :: args) (fs ++ gs) (cs ++ ds)
  | ended (cs : List String) : Gathers ("--" :: cs) [] cs

/-- An argument list that runs a script: single contents, and flags that are the two that change how
it is run, each at most once. -/
structure Invokes (args : List String) (flags : List Flag) (contents : String) : Prop where
  gathers : Gathers args flags [contents]
  nodup : flags.Nodup
  eq_or_eq_of_mem : ∀ f ∈ flags, f = .file ∨ f = .verbose

theorem Flag.letter_ne (f : Flag) : f.letter ≠ '-' := by cases f <;> decide

theorem Flag.not_mem_name (f : Flag) : '=' ∉ f.name.toList := by cases f <;> decide +kernel

theorem toList_hyphens (s : String) : ("--" ++ s).toList = '-' :: '-' :: s.toList :=
  String.toList_append

/-- The argument that ends the flags stands for nothing itself. -/
theorem Gives.ne_ended {a : String} {fs : List Flag} {cs : List String} (h : Gives a fs cs) :
    a ≠ "--" := by
  intro ha
  have hlist : a.toList = ['-', '-'] := ha ▸ rfl
  cases h with
  | name f =>
    rw [toList_hyphens] at hlist
    cases f <;> cases hlist
  | letters f fs =>
    rw [String.toList_ofList] at hlist
    exact f.letter_ne (List.cons.inj (List.cons.inj hlist).2).1
  | contents h => exact h _ _ hlist

theorem bind_eq_ok_iff {α β ε : Type} {x : Except ε α} {g : α → Except ε β} {b : β} :
    x.bind g = .ok b ↔ ∃ a, x = .ok a ∧ g a = .ok b := by
  cases x with
  | error e => simp [Except.bind]
  | ok a => simp [Except.bind]

namespace Settings

variable {s t u : Settings} {fs gs : List Flag} {cs ds : List String}

/-! ## What is added to settings

The two flags that are kept are told by `Has`, the contents by a list of one element at most. -/

/-- Whether a flag is set; flags that ask for something else never are. -/
def Has (s : Settings) : Flag → Prop
  | .file => s.isFile = true
  | .verbose => s.isVerbose = true
  | .help | .version => False

/-- The settings `t` are `s` with flags that were not set before, and with contents if there were
none. -/
structure Adds (s : Settings) (fs : List Flag) (cs : List String) (t : Settings) : Prop where
  nodup : fs.Nodup
  not_has : ∀ f ∈ fs, ¬ s.Has f
  has_iff : ∀ f, t.Has f ↔ s.Has f ∨ f ∈ fs
  contents_eq : t.contents.toList = s.contents.toList ++ cs

/-- Settings are told by their flags and contents. -/
theorem eq_of_has_iff (h : ∀ f, s.Has f ↔ t.Has f) (hc : s.contents.toList = t.contents.toList) :
    s = t := by
  obtain ⟨isFile, isVerbose, contents⟩ := s
  obtain ⟨isFile', isVerbose', contents'⟩ := t
  have hfile : isFile = isFile' := Bool.eq_iff_iff.2 (h .file)
  have hverbose : isVerbose = isVerbose' := Bool.eq_iff_iff.2 (h .verbose)
  have hcontents : contents = contents' := by simpa using congrArg List.head? hc
  rw [hfile, hverbose, hcontents]

theorem Adds.unique (h : s.Adds fs cs t) (h' : s.Adds fs cs u) : t = u :=
  eq_of_has_iff (fun f => (h.has_iff f).trans (h'.has_iff f).symm)
    (h.contents_eq.trans h'.contents_eq.symm)

theorem adds_nil_self (s : Settings) : s.Adds [] [] s :=
  ⟨List.nodup_nil, by simp, by simp, by simp⟩

theorem Adds.append (h : s.Adds fs cs t) (h' : t.Adds gs ds u) :
    s.Adds (fs ++ gs) (cs ++ ds) u := by
  refine ⟨?_, fun f hf => ?_, fun f => ?_, ?_⟩
  · rw [List.nodup_append]
    refine ⟨h.nodup, h'.nodup, ?_⟩
    rintro f hf g hg rfl
    exact h'.not_has f hg ((h.has_iff f).2 (Or.inr hf))
  · rcases List.mem_append.1 hf with hf | hf
    · exact h.not_has f hf
    · exact fun hs => h'.not_has f hf ((h.has_iff f).2 (Or.inl hs))
  · rw [h'.has_iff, h.has_iff, List.mem_append, or_assoc]
  · rw [h'.contents_eq, h.contents_eq, List.append_assoc]

/-- Only the two flags that are kept can be added. -/
theorem Adds.eq_or_eq_of_mem (h : s.Adds fs cs t) {f : Flag} (hf : f ∈ fs) :
    f = .file ∨ f = .verbose := by
  have hset : t.Has f := (h.has_iff f).2 (Or.inr hf)
  cases f with
  | file => exact Or.inl rfl
  | verbose => exact Or.inr rfl
  | help => cases hset
  | version => cases hset

/-- The settings with flags and contents added, if there is room for them. -/
def withAll (s : Settings) (fs : List Flag) (cs : List String) : Settings :=
  ⟨s.isFile || fs.contains .file, s.isVerbose || fs.contains .verbose,
    (s.contents.toList ++ cs).head?⟩

theorem adds_withAll (hnodup : fs.Nodup) (hnew : ∀ f ∈ fs, ¬ s.Has f)
    (hkept : ∀ f ∈ fs, f = .file ∨ f = .verbose)
    (hlength : (s.contents.toList ++ cs).length ≤ 1) : s.Adds fs cs (s.withAll fs cs) := by
  refine ⟨hnodup, hnew, fun f => ?_, ?_⟩
  · cases f with
    | file => simp [Has, withAll]
    | verbose => simp [Has, withAll]
    | help => exact ⟨False.elim, fun h => h.elim False.elim fun hf => by simpa using hkept _ hf⟩
    | version => exact ⟨False.elim, fun h => h.elim False.elim fun hf => by simpa using hkept _ hf⟩
  · rw [withAll]
    match hc : s.contents.toList ++ cs with
    | [] => rfl
    | [c] => rfl
    | c :: d :: ds =>
      rw [hc] at hlength
      simp at hlength

theorem Adds.length_le (h : s.Adds fs cs t) : (s.contents.toList ++ cs).length ≤ 1 := by
  rw [← h.contents_eq]
  exact Option.length_toList_le

/-- **What is added at once can be added one after the other.** -/
theorem Adds.exists_between (h : s.Adds (fs ++ gs) (cs ++ ds) u) :
    ∃ t, s.Adds fs cs t ∧ t.Adds gs ds u := by
  obtain ⟨hfs, hgs, hdisjoint⟩ := List.nodup_append.1 h.nodup
  have hlength := h.length_le
  have hadds : s.Adds fs cs (s.withAll fs cs) := by
    apply adds_withAll hfs
    · exact fun f hf => h.not_has f (List.mem_append_left gs hf)
    · exact fun f hf => h.eq_or_eq_of_mem (List.mem_append_left gs hf)
    · rw [← List.append_assoc, List.length_append] at hlength
      omega
  refine ⟨_, hadds, hgs, fun f hf => ?_, fun f => ?_, ?_⟩
  · rw [hadds.has_iff]
    rintro (hs | hf')
    · exact h.not_has f (List.mem_append_right fs hf) hs
    · exact hdisjoint f hf' f hf rfl
  · rw [h.has_iff, hadds.has_iff, List.mem_append, or_assoc]
  · rw [h.contents_eq, hadds.contents_eq, List.append_assoc]

/-! ## Taking arguments -/

theorem adds_of_new {f : Flag} (hnew : ¬ s.Has f) (hhas : ∀ g, t.Has g ↔ s.Has g ∨ g = f)
    (hcontents : t.contents = s.contents) : s.Adds [f] [] t :=
  ⟨by simp, by simpa using hnew, by simpa using hhas, by simp [hcontents]⟩

theorem adds_of_setFlag {f : Flag} (h : s.setFlag f = .ok t) : s.Adds [f] [] t := by
  cases f with
  | file =>
    rw [setFlag] at h
    split at h
    · cases h
    · rename_i hnew
      obtain rfl := Except.ok.inj h
      exact adds_of_new hnew (fun g => by cases g <;> simp [Has]) rfl
  | verbose =>
    rw [setFlag] at h
    split at h
    · cases h
    · rename_i hnew
      obtain rfl := Except.ok.inj h
      exact adds_of_new hnew (fun g => by cases g <;> simp [Has]) rfl
  | help => cases h
  | version => cases h

theorem setFlag_eq_ok_iff {f : Flag} : s.setFlag f = .ok t ↔ s.Adds [f] [] t := by
  refine ⟨adds_of_setFlag, fun h => ?_⟩
  have hnew : ¬ s.Has f := h.not_has f List.mem_cons_self
  obtain ⟨u, hu⟩ : ∃ u, s.setFlag f = .ok u := by
    rcases h.eq_or_eq_of_mem List.mem_cons_self with rfl | rfl
    · exact ⟨_, if_neg hnew⟩
    · exact ⟨_, if_neg hnew⟩
  rw [hu, h.unique (adds_of_setFlag hu)]

theorem adds_of_setContents {c : String} (h : s.setContents c = .ok t) : s.Adds [] [c] t := by
  rw [setContents] at h
  split at h
  · cases h
  · rename_i hnone
    obtain rfl := Except.ok.inj h
    exact ⟨by simp, by simp, fun f => by cases f <;> simp [Has], by simp [hnone]⟩

theorem setContents_eq_ok_iff {c : String} : s.setContents c = .ok t ↔ s.Adds [] [c] t := by
  refine ⟨adds_of_setContents, fun h => ?_⟩
  have hnone : s.contents = none := by
    have hlength := h.length_le
    cases hc : s.contents with
    | none => rfl
    | some d => simp [hc] at hlength
  obtain ⟨u, hu⟩ : ∃ u, s.setContents c = .ok u := ⟨_, by rw [setContents, hnone]⟩
  rw [hu, h.unique (adds_of_setContents hu)]

/-- Arguments after the end of the flags are contents. -/
theorem foldlM_setContents_eq_ok_iff :
    cs.foldlM setContents s = .ok t ↔ s.Adds [] cs t := by
  induction cs generalizing s with
  | nil =>
    refine ⟨fun h => ?_, fun h => congrArg Except.ok ((adds_nil_self s).unique h)⟩
    exact Except.ok.inj h ▸ adds_nil_self s
  | cons c cs ih =>
    rw [List.foldlM_cons]
    refine bind_eq_ok_iff.trans ⟨?_, fun h => ?_⟩
    · rintro ⟨u, hu, ht⟩
      exact (setContents_eq_ok_iff.1 hu).append (ih.1 ht)
    · have hsplit : s.Adds ([] ++ []) ([c] ++ cs) t := h
      obtain ⟨u, hu, ht⟩ := hsplit.exists_between
      exact ⟨u, setContents_eq_ok_iff.2 hu, ih.2 ht⟩

theorem letter_of_ofLetter? {f : Flag} {c : Char} (h : Flag.ofLetter? c = some f) :
    f.letter = c := by
  simpa using List.find?_some h

theorem setLetters_eq_ok_iff {letters : List Char} :
    s.setLetters letters = .ok t ↔ ∃ fs, letters = fs.map Flag.letter ∧ s.Adds fs [] t := by
  induction letters generalizing s with
  | nil =>
    constructor
    · intro h
      exact ⟨[], rfl, Except.ok.inj h ▸ adds_nil_self s⟩
    · rintro ⟨fs, hfs, h⟩
      obtain rfl : fs = [] := List.map_eq_nil_iff.1 hfs.symm
      exact congrArg Except.ok ((adds_nil_self s).unique h)
  | cons c letters ih =>
    constructor
    · intro h
      rw [setLetters] at h
      split at h
      · rename_i f hf
        obtain ⟨u, hu, ht⟩ := bind_eq_ok_iff.1 h
        obtain ⟨fs, rfl, hfs⟩ := ih.1 ht
        refine ⟨f :: fs, ?_, (setFlag_eq_ok_iff.1 hu).append hfs⟩
        rw [List.map_cons, letter_of_ofLetter? hf]
      · cases h
    · rintro ⟨_ | ⟨f, fs⟩, hletters, h⟩
      · cases hletters
      · obtain ⟨rfl, rfl⟩ := List.cons.inj hletters
        have hsplit : s.Adds ([f] ++ fs) ([] ++ []) t := h
        obtain ⟨u, hu, ht⟩ := hsplit.exists_between
        rw [setLetters, Flag.ofLetter?_letter]
        exact bind_eq_ok_iff.2 ⟨u, setFlag_eq_ok_iff.2 hu, ih.2 ⟨fs, rfl, ht⟩⟩

theorem setName_eq_ok_iff {text : List Char} :
    s.setName text = .ok t ↔ ∃ f : Flag, text = f.name.toList ∧ s.Adds [f] [] t := by
  have hname {name : List Char} (h : '=' ∉ name) : name.takeWhile (· ≠ '=') = name :=
    List.takeWhile_eq_self_iff.2 fun _ hc => decide_eq_true (ne_of_mem_of_not_mem hc h)
  constructor
  · intro h
    simp only [setName] at h
    split at h
    · rename_i f hf
      split at h
      · cases h
      · rename_i hvalue
        refine ⟨f, ?_, setFlag_eq_ok_iff.1 h⟩
        rw [hname hvalue] at hf
        have hfound : f.name = String.ofList text := by simpa using List.find?_some hf
        rw [hfound, String.toList_ofList]
    · cases h
  · rintro ⟨f, rfl, h⟩
    rw [← setFlag_eq_ok_iff] at h
    simp only [setName, hname f.not_mem_name, String.ofList_toList, Flag.ofName?_name,
      if_neg f.not_mem_name, h]

/-- **An argument is taken if what it stands for can be added to the settings.** -/
theorem setArgument_eq_ok_iff {a : String} :
    s.setArgument a = .ok t ↔ ∃ fs cs, Gives a fs cs ∧ s.Adds fs cs t := by
  constructor
  · intro h
    rw [setArgument] at h
    split at h
    · rename_i name ha
      obtain ⟨f, rfl, hadds⟩ := setName_eq_ok_iff.1 h
      obtain rfl : a = "--" ++ f.name := String.toList_inj.1 (ha.trans (toList_hyphens _).symm)
      exact ⟨_, _, .name f, hadds⟩
    · rename_i c letters hne ha
      obtain ⟨_ | ⟨f, fs⟩, hletters, hadds⟩ := setLetters_eq_ok_iff.1 h
      · cases hletters
      · rw [hletters] at ha
        obtain rfl := String.toList_inj.1 (ha.trans String.toList_ofList.symm)
        exact ⟨_, _, .letters f fs, hadds⟩
    · rename_i hne hne'
      exact ⟨_, _, .contents fun c cs => hne' c cs, setContents_eq_ok_iff.1 h⟩
  · rintro ⟨fs, cs, hgives, h⟩
    cases hgives with
    | name f =>
      rw [setArgument, toList_hyphens]
      exact setName_eq_ok_iff.2 ⟨f, rfl, h⟩
    | letters f fs =>
      have hset := setLetters_eq_ok_iff.2 ⟨f :: fs, rfl, h⟩
      rw [setArgument, String.toList_ofList]
      cases f <;> exact hset
    | contents hne =>
      rw [setArgument]
      split
      · rename_i ha
        exact absurd ha (hne _ _)
      · rename_i ha
        exact absurd ha (hne _ _)
      · exact setContents_eq_ok_iff.2 h

/-- **Arguments are taken if what they stand for can be added to the settings**, all together. -/
theorem setArguments_eq_ok_iff {args : List String} :
    s.setArguments args = .ok t ↔ ∃ fs cs, Gathers args fs cs ∧ s.Adds fs cs t := by
  induction args generalizing s with
  | nil =>
    constructor
    · intro h
      exact ⟨[], [], .nil, Except.ok.inj h ▸ adds_nil_self s⟩
    · rintro ⟨fs, cs, ⟨⟩, h⟩
      exact congrArg Except.ok ((adds_nil_self s).unique h)
  | cons a args ih =>
    by_cases ha : a = "--"
    · subst ha
      rw [setArguments, if_pos rfl, foldlM_setContents_eq_ok_iff]
      refine ⟨fun h => ⟨[], args, .ended args, h⟩, ?_⟩
      rintro ⟨fs, cs, hgathers, h⟩
      cases hgathers with
      | argument hgives _ => exact absurd rfl hgives.ne_ended
      | ended => exact h
    · rw [setArguments, if_neg ha]
      refine bind_eq_ok_iff.trans ⟨?_, ?_⟩
      · rintro ⟨u, hu, ht⟩
        obtain ⟨fs, cs, hgives, hfs⟩ := setArgument_eq_ok_iff.1 hu
        obtain ⟨gs, ds, hgathers, hgs⟩ := ih.1 ht
        exact ⟨_, _, .argument hgives hgathers, hfs.append hgs⟩
      · rintro ⟨fs, cs, hgathers, h⟩
        cases hgathers with
        | argument hgives hrest =>
          obtain ⟨u, hu, ht⟩ := h.exists_between
          exact ⟨u, setArgument_eq_ok_iff.2 ⟨_, _, hgives, hu⟩, ih.2 ⟨_, _, hrest, ht⟩⟩
        | ended => exact absurd rfl ha

/-! ## What settles an argument list before its end

A flag that asks for something else does, or a fault: no run. -/

/-- Whether the taking of arguments does not halt with a run. -/
def HaltsWithoutRun (x : Except Halt Settings) : Prop :=
  ∀ isFile contents, x ≠ .error (.request (.run isFile contents))

theorem HaltsWithoutRun.bind {x : Except Halt Settings} {g : Settings → Except Halt Settings}
    (hx : HaltsWithoutRun x) (hg : ∀ s, HaltsWithoutRun (g s)) : HaltsWithoutRun (x.bind g) := by
  cases x with
  | error e => exact hx
  | ok s => exact hg s

theorem haltsWithoutRun_setFlag (s : Settings) (f : Flag) : HaltsWithoutRun (s.setFlag f) := by
  cases f with
  | file => rw [setFlag]; split <;> nofun
  | verbose => rw [setFlag]; split <;> nofun
  | help => nofun
  | version => nofun

theorem haltsWithoutRun_setContents (s : Settings) (c : String) :
    HaltsWithoutRun (s.setContents c) := by
  rw [setContents]
  split <;> nofun

theorem haltsWithoutRun_foldlM (s : Settings) (cs : List String) :
    HaltsWithoutRun (cs.foldlM setContents s) := by
  induction cs generalizing s with
  | nil => nofun
  | cons c cs ih =>
    exact (haltsWithoutRun_setContents s c).bind ih

theorem haltsWithoutRun_setLetters (s : Settings) (letters : List Char) :
    HaltsWithoutRun (s.setLetters letters) := by
  induction letters generalizing s with
  | nil => nofun
  | cons c letters ih =>
    rw [setLetters]
    split
    · exact (haltsWithoutRun_setFlag s _).bind ih
    · nofun

theorem haltsWithoutRun_setName (s : Settings) (text : List Char) :
    HaltsWithoutRun (s.setName text) := by
  simp only [setName]
  split
  · split
    · nofun
    · exact haltsWithoutRun_setFlag s _
  · nofun

theorem haltsWithoutRun_setArgument (s : Settings) (a : String) :
    HaltsWithoutRun (s.setArgument a) := by
  rw [setArgument]
  split
  · exact haltsWithoutRun_setName s _
  · exact haltsWithoutRun_setLetters s _
  · exact haltsWithoutRun_setContents s a

theorem haltsWithoutRun_setArguments (s : Settings) (args : List String) :
    HaltsWithoutRun (s.setArguments args) := by
  induction args generalizing s with
  | nil => nofun
  | cons a args ih =>
    rw [setArguments]
    split
    · exact haltsWithoutRun_foldlM s args
    · exact (haltsWithoutRun_setArgument s a).bind ih

end Settings

/-! ## Argument lists that run a script -/

open Settings

theorem request_eq_run_iff {s : Settings} {isFile : Bool} {contents : String} :
    s.request = .ok (.run isFile contents) ↔ s.isFile = isFile ∧ s.contents = some contents := by
  rw [request]
  split
  · rename_i c hc
    simp [hc]
  · rename_i hc
    simp [hc]

theorem readArguments_eq_run_iff_setArguments {args : List String} {isFile : Bool}
    {contents : String} :
    readArguments args = .ok (.run isFile contents) ↔
      ∃ t, initial.setArguments args = .ok t ∧ t.isFile = isFile ∧ t.contents = some contents := by
  rw [readArguments]
  split
  · rename_i t ht
    simp only [ht, Except.ok.injEq, exists_eq_left', request_eq_run_iff]
  · rename_i r hr
    refine ⟨fun h => ?_, fun ⟨t, ht, _⟩ => ?_⟩
    · obtain rfl := Except.ok.inj h
      exact absurd hr (haltsWithoutRun_setArguments initial args isFile contents)
    · rw [hr] at ht
      cases ht
  · rename_i f hf
    simp [hf]

/-- **The argument lists that run a script** are those of the grammar that have single contents and
each of the two flags at most once; the file flag says that the contents name a file. -/
theorem readArguments_eq_run_iff {args : List String} {isFile : Bool} {contents : String} :
    readArguments args = .ok (.run isFile contents) ↔
      ∃ fs, Invokes args fs contents ∧ (isFile = true ↔ .file ∈ fs) := by
  rw [readArguments_eq_run_iff_setArguments]
  constructor
  · rintro ⟨t, ht, rfl, hcontents⟩
    obtain ⟨fs, cs, hgathers, hadds⟩ := setArguments_eq_ok_iff.1 ht
    obtain rfl : cs = [contents] := by simpa [hcontents, initial] using hadds.contents_eq.symm
    refine ⟨fs, ⟨hgathers, hadds.nodup, fun f => hadds.eq_or_eq_of_mem⟩, ?_⟩
    simpa [Has, initial] using hadds.has_iff .file
  · rintro ⟨fs, h, hfile⟩
    have hnew : ∀ f ∈ fs, ¬ initial.Has f := fun f _ => by cases f <;> simp [Has, initial]
    have hadds : initial.Adds fs [contents] (initial.withAll fs [contents]) :=
      adds_withAll h.nodup hnew h.eq_or_eq_of_mem (Nat.le_refl 1)
    refine ⟨_, setArguments_eq_ok_iff.2 ⟨fs, _, h.gathers, hadds⟩, ?_, rfl⟩
    rw [Bool.eq_iff_iff, hfile]
    simp [withAll, initial]

end Keypad.CommandLine
