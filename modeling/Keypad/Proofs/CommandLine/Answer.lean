import Keypad.Proofs.Calculator.SingleLine
import Keypad.Proofs.CommandLine.Arguments

/-!
# Proofs/CommandLine/Answer — the program answers with the run of its script

An argument list of the grammar has a script, whichever way that arrives: the contents themselves,
or the text whose UTF-8 encoding is the bytes of the file they name (`IsScript`).  There is one
script at most, and the program finds it (`script?_eq_some_iff`).  So the answer is told by the
script alone (`respond_of_invokes`); the file flag matters no further, and what else there is to the
arguments — order, grouping, the verbose flag — does not matter.  This is said of the response
without the log: the warnings that are written by default and the lines that the verbose flag adds
to them are no part of it.
-/

namespace Keypad

/-- **A text is decoded from its own encoding**, and from nothing else. -/
theorem fromUTF8?_eq_some_iff {bytes : ByteArray} {s : String} :
    String.fromUTF8? bytes = some s ↔ bytes = s.toList.utf8Encode := by
  rw [String.utf8Encode_toList, String.fromUTF8?]
  constructor
  · intro h
    split at h
    · rw [← Option.some.inj h]
      rfl
    · cases h
  · rintro rfl
    rw [dif_pos s.isValidUTF8]
    rfl

namespace CommandLine

variable {readFile : String → Option ByteArray} {args : List String} {flags : List Flag}
  {contents s : String}

/-! ## The script of an argument list -/

/-- What the script is: the contents, or with the file flag the text that the named file encodes. -/
def IsScript (readFile : String → Option ByteArray) (flags : List Flag) (contents s : String) :
    Prop :=
  if .file ∈ flags then readFile contents = some s.toList.utf8Encode else contents = s

/-- **The program finds the script**, and takes nothing else for it. -/
theorem script?_eq_some_iff {isFile : Bool} (h : isFile = true ↔ .file ∈ flags) :
    script? readFile isFile contents = some s ↔ IsScript readFile flags contents s := by
  rw [script?, IsScript]
  simp only [h]
  split
  · rw [Option.bind_eq_some_iff]
    simp only [fromUTF8?_eq_some_iff, exists_eq_right]
  · exact Option.some_inj

/-! ## The answer -/

/-- The answers to an argument list that runs a script, the log aside. -/
inductive Answers (readFile : String → Option ByteArray) (flags : List Flag) (contents : String) :
    Response → Prop
  /-- The file cannot be read, or what it holds is no encoding of a text. -/
  | unread (h : ∀ s, ¬ IsScript readFile flags contents s) :
      Answers readFile flags contents ⟨1, "", readFailure contents ++ "\n"⟩
  /-- The display, in two lines. -/
  | shown {s : String} {d : Display} (h : IsScript readFile flags contents s)
      (run : runScript s = .ok d) (upper : IsLine d.upper) (lower : IsLine d.lower) :
      Answers readFile flags contents ⟨0, d.upper ++ "\n" ++ d.lower ++ "\n", ""⟩
  /-- The script names an unknown key. -/
  | failed {s : String} {e : UnknownKey} (h : IsScript readFile flags contents s)
      (run : runScript s = .error e) :
      Answers readFile flags contents ⟨1, "", e.message ++ "\n"⟩

/-- What the arguments ask for is the run that the grammar tells. -/
theorem Invokes.exists_readArguments (h : Invokes args flags contents) :
    ∃ isFile, (isFile = true ↔ .file ∈ flags) ∧ readArguments args = .ok (.run isFile contents) :=
  have hfile : flags.contains .file = true ↔ .file ∈ flags := List.contains_iff_mem
  ⟨flags.contains .file, hfile, readArguments_eq_run_iff.2 ⟨flags, h, hfile⟩⟩

/-- The file that is read is the one that the contents name, if they name one. -/
theorem fileToRead?_of_invokes (h : Invokes args flags contents) :
    fileToRead? args = if .file ∈ flags then some contents else none := by
  obtain ⟨isFile, hfile, hread⟩ := h.exists_readArguments
  rw [fileToRead?, hread]
  cases isFile with
  | true => rw [if_pos (hfile.1 rfl)]
  | false => rw [if_neg fun hmem => Bool.false_ne_true (hfile.2 hmem)]

/-- The answer to a script that leads to a display, or else to an error. -/
def answer : Except UnknownKey Display → Response
  | .ok d => ⟨0, d.upper ++ "\n" ++ d.lower ++ "\n", ""⟩
  | .error e => ⟨1, "", e.message ++ "\n"⟩

/-- The response to an argument list with a script is told by that script. -/
theorem respond_of_isScript (h : Invokes args flags contents)
    (hs : IsScript readFile flags contents s) : respond readFile args = answer (runScript s) := by
  obtain ⟨isFile, hfile, hread⟩ := h.exists_readArguments
  rw [respond, hread]
  simp only [Request.respond, (script?_eq_some_iff hfile).2 hs]
  cases runScript s <;> rfl

/-- **An argument list that runs a script gets one of the three answers.** -/
theorem answers_respond (h : Invokes args flags contents) :
    Answers readFile flags contents (respond readFile args) := by
  by_cases hscript : ∃ s, IsScript readFile flags contents s
  · obtain ⟨s, hs⟩ := hscript
    rw [respond_of_isScript h hs]
    cases hrun : runScript s with
    | ok d =>
      obtain ⟨hupper, hlower⟩ := isLine_of_runScript hrun
      exact .shown hs hrun hupper hlower
    | error e => exact .failed hs hrun
  · have hnone : ∀ s, ¬ IsScript readFile flags contents s := not_exists.1 hscript
    obtain ⟨isFile, hfile, hread⟩ := h.exists_readArguments
    have hscript? : script? readFile isFile contents = none :=
      Option.eq_none_iff_forall_ne_some.2 fun s hs => hnone s ((script?_eq_some_iff hfile).1 hs)
    rw [respond, hread]
    simp only [Request.respond, hscript?]
    exact .unread hnone

/-- **The program answers with the run of its script.**  The argument lists that run one are those
of the grammar; each of them gets an answer from its script alone, so any two with one script get
the same, whether it arrives inline or from a file. -/
theorem respond_of_invokes :
    (∀ args isFile contents, readArguments args = .ok (.run isFile contents) ↔
      ∃ flags, Invokes args flags contents ∧ (isFile = true ↔ .file ∈ flags)) ∧
    (∀ args flags contents, Invokes args flags contents →
      fileToRead? args = (if .file ∈ flags then some contents else none) ∧
      ∀ readFile, Answers readFile flags contents (respond readFile args)) ∧
    ∀ args flags contents readFile args' flags' contents' readFile' s,
      Invokes args flags contents → IsScript readFile flags contents s →
      Invokes args' flags' contents' → IsScript readFile' flags' contents' s →
      respond readFile args = respond readFile' args' := by
  refine ⟨fun args isFile contents => readArguments_eq_run_iff, ?_, ?_⟩
  · exact fun args flags contents h => ⟨fileToRead?_of_invokes h, fun _ => answers_respond h⟩
  · intro args flags contents readFile args' flags' contents' readFile' s h hs h' hs'
    rw [respond_of_isScript h hs, respond_of_isScript h' hs']

/-- A script of two keys, inline and from a file, with the flags in one argument and in two. -/
theorem respond_of_invokes_inline :
    respond (fun _ => some ⟨#[0x31, 0x3D]⟩) ["-fv", "a.keys"] =
      respond (fun _ => none) ["--verbose", "--", "1="] := by
  refine respond_of_invokes.2.2 _ [.file, .verbose] "a.keys" _ _ [.verbose] "1=" _ "1=" ?_ ?_ ?_ ?_
  · exact ⟨.argument (.letters .file [.verbose]) (.argument (.contents (by simp)) .nil),
      by decide, by decide⟩
  · exact (if_pos (by decide)).mpr rfl
  · exact ⟨.argument (.name .verbose) (.ended ["1="]), by decide, by decide⟩
  · exact (if_neg (by decide)).mpr rfl

end CommandLine

end Keypad
