import Keypad.Key.Basic
import Keypad.Text.WhiteSpace

/-!
# Key/Script — keystroke scripts

A script is a row of key spellings with gaps between them.  `Script.readKeys` reads as many keys as
stand at the front of a text and returns the text it could not read; a script is accepted when that
is empty (`Script.read`), and otherwise the unread text names the unknown key and its column.
-/

namespace Keypad

/-- Text of a script that names no key, with its column.  Columns count characters from one. -/
structure UnknownKey where
  text : String
  column : Nat
deriving DecidableEq

/-- The error in words. -/
def UnknownKey.message (e : UnknownKey) : String :=
  let text := e.text
  let column := e.column
  s!"Unknown key '{text}' at column {column}."

namespace Script

/-- Whether a character may stand between keys: space, tab, carriage return, line feed or form
feed. -/
def isGap (c : Char) : Bool := [' ', '\t', '\r', '\n', '\x0c'].contains c

/-- The keys at the front of a text, and the text from the first one that is unknown on. -/
def readKeys : List Char → List Key × List Char
  | [] => ([], [])
  | c :: rest =>
    if isGap c then readKeys rest
    else
      match h : Key.read? (c :: rest) with
      | some (key, after) =>
        have : after.length < (c :: rest).length := Key.length_lt_of_read? h
        (key :: (readKeys after).1, (readKeys after).2)
      | none => ([], c :: rest)
termination_by cs => cs.length
decreasing_by all_goals simp only [List.length_cons] at *; omega

/-! ## Unknown text -/

/-- The name in brackets that a text continues: up to its closing bracket, that included, or up to
the white space before it, or to the end. -/
def bracketedRest : List Char → List Char
  | [] => []
  | c :: rest =>
    if c = ']' then [c] else if Text.isWhiteSpace c then [] else c :: bracketedRest rest

/-- The part of an unreadable text that is reported: a name in brackets, or else one character. -/
def unknownText : List Char → List Char
  | [] => []
  | '[' :: rest => '[' :: bracketedRest rest
  | c :: _ => [c]

/-! ## Whole scripts -/

/-- The keys of a script, or the first text in it that names no key. -/
def read (source : String) : Except UnknownKey (List Key) :=
  let unread := (readKeys source.toList).2
  if unread = [] then .ok (readKeys source.toList).1
  else .error ⟨String.ofList (unknownText unread), source.toList.length - unread.length + 1⟩

/-! ## Reading step by step -/

@[simp] theorem readKeys_nil : readKeys [] = ([], []) := by rw [readKeys]

/-- A gap is passed over. -/
theorem readKeys_gap {c : Char} (h : isGap c) (cs : List Char) :
    readKeys (c :: cs) = readKeys cs := by rw [readKeys, if_pos h]

/-- No spelling of a key begins with a gap. -/
theorem any_isGap_head? :
    ∀ p ∈ Key.table, p.1.head?.any isGap = false := by decide +kernel

/-- **A spelling is read as its key**, whatever follows. -/
theorem readKeys_spelling {k : Key} {name : String} (h : name ∈ k.spellings) (cs : List Char) :
    readKeys (name.toList ++ cs) = (k :: (readKeys cs).1, (readKeys cs).2) := by
  have hread : Key.read? (name.toList ++ cs) = some (k, cs) :=
    Key.read?_eq_some_iff.2 ⟨name, h, rfl⟩
  have hmem : (name.toList, k) ∈ Key.table := Key.mem_table_iff.2 ⟨name, h, rfl⟩
  obtain ⟨c, rest, hc⟩ : ∃ c rest, name.toList = c :: rest :=
    List.exists_cons_of_ne_nil (Key.spelling_ne_nil _ hmem)
  have hgap : isGap c = false := by simpa [hc] using any_isGap_head? _ hmem
  simp only [hc, List.cons_append] at hread ⊢
  rw [readKeys, if_neg (by simp [hgap])]
  split
  · rename_i key after h'
    obtain ⟨rfl, rfl⟩ := Prod.mk.inj (Option.some.inj (h'.symm.trans hread))
    rfl
  · rename_i h'
    rw [h'] at hread
    cases hread

/-- Reading stops where neither a gap nor a key stands. -/
theorem readKeys_unknown {c : Char} {cs : List Char} (h : isGap c = false)
    (h' : Key.read? (c :: cs) = none) : readKeys (c :: cs) = ([], c :: cs) := by
  rw [readKeys, if_neg (by simp [h])]
  split
  · rename_i hs
    rw [h'] at hs
    cases hs
  · rfl

end Script

end Keypad
