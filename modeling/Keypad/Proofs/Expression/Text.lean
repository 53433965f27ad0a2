import Keypad.Expression.Basic
import Keypad.Proofs.Binary64.RoundTrip

/-!
# Proofs/Expression/Text — the text of an expression tells its tokens

Single spaces divide the texts of the tokens and stand nowhere else, so dividing the text at spaces
gives the texts of the tokens back (`pieces_text`).  No number is written like an operator, so each
of these tells its token, but for the sign of a zero (`Token.ofText?_text`).  That sign is all that
is lost: expressions show the same text just if they differ in nothing else (`text_eq_text_iff`).
-/

namespace Keypad

/-! ## Texts of tokens -/

/-- The text of a number holds no white space. -/
theorem Binary64.isWhiteSpace_of_mem_text {x : Binary64} {c : Char} (h : c ∈ x.text.toList) :
    Text.isWhiteSpace c = false := by
  cases x with
  | nan =>
    have hword : nanWord.toList.any Text.isWhiteSpace = false := by decide +kernel
    exact Text.isWhiteSpace_of_mem hword h
  | infinite negative =>
    have hword : ∀ negative, (infinityWord negative).toList.any Text.isWhiteSpace = false := by
      decide +kernel
    exact Text.isWhiteSpace_of_mem (hword negative) h
  | finite negative m =>
    rw [text] at h
    split at h
    · have hzero : "0".toList.any Text.isWhiteSpace = false := by decide +kernel
      exact Text.isWhiteSpace_of_mem hzero h
    · rw [String.toList_ofList] at h
      exact Numeral.isWhiteSpace_of_isNumeralChar (Numeral.isNumeralChar_of_mem_chars h)

/-- No operator is read as a number. -/
theorem Binary64.ofText?_symbol (op : Operator) : ofText? op.symbol = none := by
  cases op <;> decide +kernel

/-- No number is written like an operator. -/
theorem Operator.ofSymbol?_text (x : Binary64) : ofSymbol? x.text = none := by
  rcases h : ofSymbol? x.text with _ | op
  · rfl
  · have hread := x.ofText?_text
    rw [← ofSymbol?_eq_some_iff.1 h, Binary64.ofText?_symbol] at hread
    cases hread

namespace Token

/-- The token without the sign of a zero: this much of a token its text keeps. -/
def withoutZeroSign : Token → Token
  | number x => number x.withoutZeroSign
  | operator op => operator op

/-- The token that a text tells: an operator, or else a number. -/
def ofText? (s : String) : Option Token :=
  match Operator.ofSymbol? s with
  | some op => some (.operator op)
  | none => (Binary64.ofText? s).map .number

theorem isWhiteSpace_of_mem_text {t : Token} {c : Char} (h : c ∈ t.text.toList) :
    Text.isWhiteSpace c = false := by
  cases t with
  | number x => exact x.isWhiteSpace_of_mem_text h
  | operator op =>
    have hsymbol : op.symbol.toList.any Text.isWhiteSpace = false := by
      cases op <;> decide +kernel
    exact Text.isWhiteSpace_of_mem hsymbol h

theorem text_ne_empty (t : Token) : t.text ≠ "" := by
  cases t with
  | number value => exact value.text_ne_empty
  | operator op => cases op <;> decide

/-- The sign of a zero is not written. -/
theorem text_withoutZeroSign (t : Token) : t.withoutZeroSign.text = t.text := by
  cases t with
  | number x => exact x.text_withoutZeroSign
  | operator op => rfl

/-- **The text of a token tells the token**, but for the sign of a zero. -/
theorem ofText?_text (t : Token) : ofText? t.text = some t.withoutZeroSign := by
  cases t with
  | number x =>
    change ofText? x.text = _
    rw [ofText?, Operator.ofSymbol?_text, x.ofText?_text]
    rfl
  | operator op =>
    change ofText? op.symbol = _
    rw [ofText?, Operator.ofSymbol?_symbol]
    rfl

end Token

namespace Expression

variable {e f : Expression}

/-! ## Texts of expressions -/

/-- An expression with a token in it has a text. -/
theorem text_ne_empty (h : e ≠ empty) : e.text ≠ "" := by
  rcases e with ⟨_ | ⟨t, _ | ⟨u, ts⟩⟩⟩
  · exact absurd rfl h
  · exact t.text_ne_empty
  · rw [text, List.map_cons, List.map_cons, String.intercalate_cons_cons]
    simp [t.text_ne_empty]

/-- The parts of a line before, between and after its spaces. -/
def pieces (line : String) : List String := (line.split ' ').toList.map (·.copy)

/-- **The spaces of the text divide it into the texts of the tokens.** -/
theorem pieces_text (h : e ≠ empty) : pieces e.text = e.tokens.map Token.text := by
  have hspace : ∀ s ∈ e.tokens.map Token.text, ' ' ∉ s.toList := by
    intro s hs hmem
    obtain ⟨t, -, rfl⟩ := List.mem_map.1 hs
    have hsolid := t.isWhiteSpace_of_mem_text hmem
    exact Bool.false_ne_true (hsolid.symm.trans (by decide))
  have hne : e.tokens.map Token.text ≠ [] := fun hnil =>
    h (congrArg Expression.mk (List.map_eq_nil_iff.1 hnil))
  exact (String.toList_split_intercalate hspace).trans (if_neg hne)

/-- **The pieces of the text tell the tokens**, but for the signs of zeros. -/
theorem map_ofText?_pieces_text (h : e ≠ empty) :
    (pieces e.text).map Token.ofText? = (e.tokens.map Token.withoutZeroSign).map some := by
  rw [pieces_text h, List.map_map, List.map_map]
  exact List.map_congr_left fun t _ => t.ofText?_text

/-- The text leaves out the signs of zeros. -/
theorem map_text_map_withoutZeroSign (ts : List Token) :
    (ts.map Token.withoutZeroSign).map Token.text = ts.map Token.text := by
  rw [List.map_map]
  exact List.map_congr_left fun t _ => t.text_withoutZeroSign

theorem text_eq_of_map_withoutZeroSign_eq
    (h : e.tokens.map Token.withoutZeroSign = f.tokens.map Token.withoutZeroSign) :
    e.text = f.text := by
  rw [text, text, ← map_text_map_withoutZeroSign, h, map_text_map_withoutZeroSign]

/-- **Expressions show the same text just if they differ in the signs of zeros only.** -/
theorem text_eq_text_iff : e.text = f.text ↔
    e.tokens.map Token.withoutZeroSign = f.tokens.map Token.withoutZeroSign := by
  refine ⟨fun h => ?_, text_eq_of_map_withoutZeroSign_eq⟩
  by_cases he : e = empty
  · by_cases hf : f = empty
    · rw [he, hf]
    · rw [he] at h
      exact absurd h.symm (text_ne_empty hf)
  · by_cases hf : f = empty
    · rw [hf] at h
      exact absurd h (text_ne_empty he)
    · have hread := congrArg (List.map Token.ofText? ∘ pieces) h
      rw [Function.comp_apply, Function.comp_apply, map_ofText?_pieces_text he,
        map_ofText?_pieces_text hf] at hread
      exact List.map_injective_iff.2 (Option.some_injective _) hread

/-- **The text of an expression tells its tokens.**  If there are any, its spaces divide it into as
many pieces, and the pieces read in their order, each as an operator or else as a number, are the
tokens, with nothing lost but the signs of zeros.  So two expressions show the same text just if
they differ in nothing else. -/
theorem pieces_text_read (e : Expression) :
    (e ≠ empty → (pieces e.text).length = e.tokens.length ∧
        (pieces e.text).map Token.ofText? = e.tokens.map fun t => some t.withoutZeroSign) ∧
      ∀ f : Expression, e.text = f.text ↔
        e.tokens.map Token.withoutZeroSign = f.tokens.map Token.withoutZeroSign := by
  refine ⟨fun h => ⟨?_, ?_⟩, fun f => text_eq_text_iff⟩
  · rw [pieces_text h, List.length_map]
  · rw [map_ofText?_pieces_text h, List.map_map]
    rfl

end Expression

end Keypad
