import Keypad.Expression.Token

/-!
# Key/Basic — the keys, and how a script spells them

Every key has one spelling or more: a single character, or a name in brackets.  No spelling is the
beginning of another (`spellings_apart`), so at most one of them begins a given text, and
`Key.read?` finds it.
-/

namespace Keypad

/-- What a key does to the number being typed. -/
inductive Transform where
  | percent
  | reciprocal
  | squareRoot
  | square
  | negate
deriving DecidableEq

namespace Transform

/-- The function of a transform. -/
def apply : Transform → Binary64 → Binary64
  | percent, x => x / Binary64.ofNat 100
  | reciprocal, x => Binary64.ofNat 1 / x
  | squareRoot, x => x.sqrt
  | square, x => x * x
  | negate, x => -x

end Transform

/-- A key of the calculator. -/
inductive Key where
  /-- One of the ten keys `0` to `9`.  No key types another character, although a calculator takes
  any (`Calculator.type`). -/
  | digit (d : Digit)
  | operator (op : Operator)
  | equals
  | point
  | backspace
  | clear
  | transform (t : Transform)
deriving DecidableEq

namespace Key

/-- The spellings of a key.  The name `[square]` stands for the square root and `[exponent]` for the
square. -/
def spellings : Key → List String
  | digit d => [String.singleton d.char]
  | operator op => [op.symbol]
  | equals => ["=", "[Enter]", "[equals]"]
  | point => [".", "[decimal]"]
  | backspace => ["[Backspace]", "[backspace]"]
  | clear => ["[Escape]", "[clear]", "[CE]"]
  | transform .percent => ["[percentage]"]
  | transform .reciprocal => ["[fraction]"]
  | transform .squareRoot => ["[square]"]
  | transform .square => ["[exponent]"]
  | transform .negate => ["[pos-neg]"]

/-- All keys. -/
def all : List Key :=
  (List.finRange 10).map digit ++ Operator.all.map operator ++
    [equals, point, backspace, clear, transform .percent, transform .reciprocal,
      transform .squareRoot, transform .square, transform .negate]

theorem mem_all (k : Key) : k ∈ all := by
  cases k with
  | digit d => simp [all]
  | operator op => simp [all, Operator.mem_all]
  | transform t => cases t <;> simp [all]
  | _ => simp [all]

/-- The spellings with their keys. -/
def table : List (List Char × Key) :=
  all.flatMap fun k => k.spellings.map fun s => (s.toList, k)

theorem mem_table_iff {s : List Char} {k : Key} :
    (s, k) ∈ table ↔ ∃ name ∈ k.spellings, name.toList = s := by
  simp only [table, List.mem_flatMap, List.mem_map, Prod.mk.injEq]
  constructor
  · rintro ⟨k', -, name, hname, rfl, rfl⟩
    exact ⟨name, hname, rfl⟩
  · rintro ⟨name, hname, rfl⟩
    exact ⟨k, mem_all k, name, hname, rfl, rfl⟩

/-- **No spelling is the beginning of another**, and no two keys share one. -/
theorem spellings_apart :
    ∀ p ∈ table, ∀ q ∈ table, p.1.isPrefixOf q.1 → p = q := by decide +kernel

theorem spelling_ne_nil : ∀ p ∈ table, p.1 ≠ [] := by decide +kernel

/-- The key whose spelling begins a text, and the text after the spelling. -/
def read? (cs : List Char) : Option (Key × List Char) :=
  (table.find? fun p => p.1.isPrefixOf cs).map fun p => (p.2, cs.drop p.1.length)

private theorem exists_spelling {cs rest : List Char} {k : Key} (h : read? cs = some (k, rest)) :
    ∃ s, (s, k) ∈ table ∧ s ++ rest = cs := by
  obtain ⟨⟨s, k'⟩, hfind, he⟩ := Option.map_eq_some_iff.1 h
  have hfits := List.find?_some hfind
  obtain ⟨after, rfl⟩ := List.isPrefixOf_iff_prefix.1 hfits
  obtain ⟨rfl, rfl⟩ := Prod.mk.inj he
  exact ⟨s, List.mem_of_find?_eq_some hfind, by rw [List.drop_left]⟩

/-- **A key is read exactly where one of its spellings stands.** -/
theorem read?_eq_some_iff {cs rest : List Char} {k : Key} :
    read? cs = some (k, rest) ↔ ∃ name ∈ k.spellings, name.toList ++ rest = cs := by
  constructor
  · intro h
    obtain ⟨s, hmem, hs⟩ := exists_spelling h
    obtain ⟨name, hname, rfl⟩ := mem_table_iff.1 hmem
    exact ⟨name, hname, hs⟩
  · rintro ⟨name, hname, hcs⟩
    have hmem : (name.toList, k) ∈ table := mem_table_iff.2 ⟨name, hname, rfl⟩
    have hsome : (read? cs).isSome := by
      rw [read?, Option.isSome_map, List.find?_isSome]
      exact ⟨_, hmem, List.isPrefixOf_iff_prefix.2 ⟨rest, hcs⟩⟩
    obtain ⟨⟨k', rest'⟩, hread⟩ := Option.isSome_iff_exists.1 hsome
    obtain ⟨s, hs, hcs'⟩ := exists_spelling hread
    have hpair : (name.toList, k) = (s, k') := by
      rcases List.prefix_or_prefix_of_prefix ⟨rest, hcs⟩ ⟨rest', hcs'⟩ with h | h
      · exact spellings_apart _ hmem _ hs (List.isPrefixOf_iff_prefix.2 h)
      · exact (spellings_apart _ hs _ hmem (List.isPrefixOf_iff_prefix.2 h)).symm
    obtain ⟨rfl, rfl⟩ := Prod.mk.inj hpair
    rw [hread, List.append_cancel_left (hcs'.trans hcs.symm)]

/-- What is left after a key is shorter. -/
theorem length_lt_of_read? {cs rest : List Char} {k : Key} (h : read? cs = some (k, rest)) :
    rest.length < cs.length := by
  obtain ⟨s, hmem, rfl⟩ := exists_spelling h
  rw [List.length_append]
  exact Nat.lt_add_of_pos_left (List.length_pos_iff.2 (spelling_ne_nil _ hmem))

end Key

end Keypad
