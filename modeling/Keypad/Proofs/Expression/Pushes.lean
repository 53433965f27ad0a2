import Keypad.Proofs.Expression.Ending
import Mathlib.Data.List.SplitBy
import Mathlib.Data.List.TakeWhile

/-!
# Proofs/Expression/Pushes — pushes collapse to first numbers and last operators

An expression looks at its last token only, and yet what it holds can be read off all that was ever
pushed.  Operators at the start aside, the pushes fall into runs of one kind, and of every run one
push is kept: the first of numbers, the last of operators (`collapse`).

Runs of the two kinds take turns (`inTurn_splitBy`), so a run begins with a push that is appended.
The rest of a run of numbers is refused and the rest of a run of operators replaces what was
appended (`pushAll_run`).
-/

namespace Keypad

/-! ## Runs of one kind -/

namespace Token

/-- Whether the token is an operator. -/
def isOperator : Token → Bool
  | number _ => false
  | operator _ => true

/-- Whether two tokens are both numbers or both operators. -/
def isLike (t u : Token) : Bool := t.isOperator == u.isOperator

end Token

/-- Runs of tokens of one kind take turns: the first is of operators if `op` holds, else of numbers,
and each later one is of the other kind than the one before it. -/
inductive InTurn : Bool → List (List Token) → Prop
  | nil (op : Bool) : InTurn op []
  | cons {op : Bool} {t : Token} {run : List Token} {runs : List (List Token)}
      (kind : ∀ u ∈ t :: run, u.isOperator = op) (later : InTurn (!op) runs) :
      InTurn op ((t :: run) :: runs)

section

variable {t : Token} {ts : List Token} {op : Bool}

/-- Tokens that are each like the one before are all like the first. -/
theorem isOperator_of_isChain (h : (t :: ts).IsChain fun u v => u.isLike v) :
    ∀ u ∈ t :: ts, u.isOperator = t.isOperator := by
  induction ts generalizing t with
  | nil =>
    intro u hu
    rw [List.mem_singleton.1 hu]
  | cons v ts ih =>
    obtain ⟨hlike, hrest⟩ := List.isChain_cons_cons.1 h
    intro u hu
    rcases List.mem_cons.1 hu with rfl | hu
    · rfl
    · exact (ih hrest u hu).trans (beq_iff_eq.1 hlike).symm

/-- A run that begins with a token unlike the last one before it is of the other kind. -/
theorem isOperator_head_of_unlike {run next : List Token} (kind : ∀ u ∈ run, u.isOperator = op)
    (h : ∃ hrun hnext, (run.getLast hrun).isLike (next.head hnext) = false) :
    ∀ u ∈ next.head?, u.isOperator = !op := by
  intro u hu
  obtain ⟨hrun, hnext, hunlike⟩ := h
  obtain rfl : next.head hnext = u := by
    rwa [List.head?_eq_some_head hnext, Option.mem_some_iff] at hu
  rw [Token.isLike, kind _ (List.getLast_mem hrun)] at hunlike
  exact Bool.eq_not.2 (beq_eq_false_iff_ne.1 hunlike).symm

theorem inTurn_of_isChain {runs : List (List Token)} (hne : [] ∉ runs)
    (hrun : ∀ run ∈ runs, run.IsChain fun u v => u.isLike v)
    (hturn : runs.IsChain fun a b => ∃ ha hb, (a.getLast ha).isLike (b.head hb) = false)
    (hfirst : ∀ run ∈ runs.head?, ∀ u ∈ run.head?, u.isOperator = op) : InTurn op runs := by
  induction runs generalizing op with
  | nil => exact .nil op
  | cons run runs ih =>
    obtain ⟨hnil, hnes⟩ := List.ne_and_not_mem_of_not_mem_cons hne
    obtain ⟨hnext, hturns⟩ := List.isChain_cons.1 hturn
    obtain _ | ⟨v, run⟩ := run
    · exact absurd rfl hnil
    · have hv : v.isOperator = op := hfirst _ rfl v rfl
      have hkind : ∀ u ∈ v :: run, u.isOperator = op := fun u hu =>
        (isOperator_of_isChain (hrun _ List.mem_cons_self) u hu).trans hv
      have hlater : ∀ next ∈ runs.head?, ∀ u ∈ next.head?, u.isOperator = !op :=
        fun next hmem => isOperator_head_of_unlike hkind (hnext next hmem)
      exact .cons hkind (ih hnes (fun r hr => hrun r (List.mem_cons_of_mem _ hr)) hturns hlater)

/-- **Tokens fall into longest runs of one kind that take turns.** -/
theorem inTurn_splitBy (h : ∀ u ∈ ts.head?, u.isOperator = op) :
    InTurn op (ts.splitBy Token.isLike) := by
  refine inTurn_of_isChain (List.nil_notMem_splitBy _ _)
    (fun run hrun => List.isChain_of_mem_splitBy hrun) (List.isChain_getLast_head_splitBy _ _) ?_
  intro run hrun u hu
  obtain ⟨rest, hruns⟩ := List.head?_eq_some_iff.1 hrun
  apply h
  rw [← List.flatten_splitBy Token.isLike ts, hruns, List.flatten_cons, List.head?_append,
    show run.head? = some u from hu]
  rfl

end

namespace Expression

variable {e : Expression} {t : Token} {op : Bool} {run pushes : List Token}

/-! ## Pushes, one after the other -/

/-- The expression with a token at its end; none if the push is refused. -/
def push? (e : Expression) : Token → Option Expression
  | .number x => e.pushNumber? x
  | .operator op => e.pushOperator? op

/-- The expression after a push, the same if the push is refused. -/
def push (e : Expression) (t : Token) : Expression := (e.push? t).getD e

/-- Tokens are pushed one after the other. -/
def pushAll (e : Expression) (pushes : List Token) : Expression := pushes.foldl push e

/-- What is kept of a run of pushes of one kind: the first number or the last operator. -/
def keptOfRun? : List Token → Option Token
  | .number x :: _ => some (.number x)
  | run => run.getLast?

/-- What is kept of pushes: operators at the start are dropped, and of every longest run of pushes
of one kind after them one push is kept. -/
def collapse (pushes : List Token) : List Token :=
  ((pushes.dropWhile Token.isOperator).splitBy Token.isLike).filterMap keptOfRun?

theorem pushAll_cons (e : Expression) (t : Token) (pushes : List Token) :
    e.pushAll (t :: pushes) = (e.push t).pushAll pushes := rfl

theorem pushAll_append (e : Expression) (before after : List Token) :
    e.pushAll (before ++ after) = (e.pushAll before).pushAll after := List.foldl_append

theorem pushAll_concat (e : Expression) (pushes : List Token) (t : Token) :
    e.pushAll (pushes ++ [t]) = (e.pushAll pushes).push t := List.foldl_concat _ _ _ _

/-! ## One run of pushes -/

theorem push_number_of_number (ts : List Token) (x y : Binary64) :
    push ⟨ts ++ [.number x]⟩ (.number y) = ⟨ts ++ [.number x]⟩ := by
  rw [push, push?, pushNumber?_number]
  rfl

theorem push_operator_of_operator (ts : List Token) (old op : Operator) :
    push ⟨ts ++ [.operator old]⟩ (.operator op) = ⟨ts ++ [.operator op]⟩ := by
  rw [push, push?, pushOperator?_operator]
  rfl

/-- A token of the other kind than the last one is appended. -/
theorem push_of_unlike {u : Token} (h : u.isOperator ≠ t.isOperator) (ts : List Token) :
    push ⟨ts ++ [u]⟩ t = ⟨ts ++ [u] ++ [t]⟩ := by
  cases u <;> cases t
  case number.number | operator.operator => exact absurd rfl h
  case number.operator x op =>
    rw [push, push?, pushOperator?_number]
    rfl
  case operator.number op x =>
    rw [push, push?, pushNumber?_operator]
    rfl

/-- The rest of a run of numbers is refused. -/
theorem pushAll_numbers (h : ∀ u ∈ run, u.isOperator = false) (ts : List Token) (x : Binary64) :
    pushAll ⟨ts ++ [.number x]⟩ run = ⟨ts ++ [.number x]⟩ := by
  induction run with
  | nil => rfl
  | cons u run ih =>
    obtain ⟨hu, hrun⟩ := List.forall_mem_cons.1 h
    cases u with
    | number y => rw [pushAll_cons, push_number_of_number, ih hrun]
    | operator op => cases hu

/-- The rest of a run of operators replaces what it began with. -/
theorem pushAll_operators (h : ∀ u ∈ run, u.isOperator = true) (ts : List Token) (op : Operator) :
    pushAll ⟨ts ++ [.operator op]⟩ run = ⟨ts ++ [run.getLast?.getD (.operator op)]⟩ := by
  induction run generalizing op with
  | nil => rfl
  | cons u run ih =>
    obtain ⟨hu, hrun⟩ := List.forall_mem_cons.1 h
    cases u with
    | number x => cases hu
    | operator new =>
      rw [pushAll_cons, push_operator_of_operator, ih hrun, List.getLast?_cons]
      rfl

/-- **Of a run that begins with a push that is appended, one push is kept.** -/
theorem pushAll_run (h : ∀ u ∈ t :: run, u.isOperator = op) :
    ∃ u, keptOfRun? (t :: run) = some u ∧ u.isOperator = op ∧
      ∀ ts, pushAll ⟨ts ++ [t]⟩ run = ⟨ts ++ [u]⟩ := by
  obtain ⟨ht, hrun⟩ := List.forall_mem_cons.1 h
  subst ht
  cases t with
  | number x => exact ⟨.number x, rfl, rfl, fun ts => pushAll_numbers hrun ts x⟩
  | operator op =>
    have hkept : keptOfRun? (.operator op :: run) = some (run.getLast?.getD (.operator op)) :=
      List.getLast?_cons
    exact ⟨_, hkept, h _ (List.mem_of_getLast? hkept), fun ts => pushAll_operators hrun ts op⟩

/-! ## All runs -/

/-- **Of runs that take turns, one push each is kept**, if the first begins with a push that is
appended. -/
theorem tokens_pushAll_flatten {runs : List (List Token)} (h : InTurn op runs)
    (he : ∀ t, t.isOperator = op → e.push t = ⟨e.tokens ++ [t]⟩) :
    (e.pushAll runs.flatten).tokens = e.tokens ++ runs.filterMap keptOfRun? := by
  induction h generalizing e with
  | nil op => exact (List.append_nil _).symm
  | @cons op t run runs kind later ih =>
    obtain ⟨u, hkept, hu, hpush⟩ := pushAll_run kind
    have hnext : ∀ v, v.isOperator = (!op) →
        push ⟨e.tokens ++ [u]⟩ v = ⟨e.tokens ++ [u] ++ [v]⟩ := by
      intro v hv
      apply push_of_unlike
      rw [hu, hv]
      exact (Bool.eq_not_self op).1
    rw [List.flatten_cons, List.cons_append, pushAll_cons, pushAll_append,
      he t (kind t List.mem_cons_self), hpush, ih hnext, List.filterMap_cons_some hkept,
      List.append_assoc]
    rfl

/-- Operators at the start leave the expression empty. -/
theorem pushAll_dropWhile (pushes : List Token) :
    empty.pushAll (pushes.dropWhile Token.isOperator) = empty.pushAll pushes := by
  induction pushes with
  | nil => rfl
  | cons t pushes ih =>
    cases t with
    | number x => rfl
    | operator op => exact ih

theorem isOperator_of_mem_head?_dropWhile (pushes : List Token) :
    ∀ t ∈ (pushes.dropWhile Token.isOperator).head?, t.isOperator = false := by
  intro t ht
  have hhead := List.head?_dropWhile_not Token.isOperator pushes
  rwa [show (pushes.dropWhile Token.isOperator).head? = some t from ht] at hhead

/-- **The tokens after any pushes are what the pushes collapse to.** -/
theorem tokens_pushAll_empty (pushes : List Token) :
    (empty.pushAll pushes).tokens = collapse pushes := by
  have hruns := inTurn_splitBy (isOperator_of_mem_head?_dropWhile pushes)
  have hfirst : ∀ t : Token, t.isOperator = false → empty.push t = ⟨empty.tokens ++ [t]⟩ := by
    intro t ht
    cases t with
    | number x => rfl
    | operator op => cases ht
  have htokens := tokens_pushAll_flatten hruns hfirst
  rwa [List.flatten_splitBy, pushAll_dropWhile] at htokens

example (x y z : Binary64) :
    (empty.pushAll [.operator .add, .number x, .number y, .operator .add, .operator .divide,
      .number z]).tokens = [.number x, .operator .divide, .number z] := rfl

/-! ## Pushes that are refused -/

/-- Nothing is kept of operators only. -/
theorem collapse_eq_nil_iff : collapse pushes = [] ↔ ∀ t ∈ pushes, t.isOperator = true := by
  rw [collapse, List.filterMap_eq_nil_iff, ← List.dropWhile_eq_nil_iff,
    ← List.splitBy_eq_nil (r := Token.isLike)]
  refine ⟨fun h => ?_, fun h run hrun => ?_⟩
  · refine List.eq_nil_iff_forall_not_mem.2 fun run hrun => List.ne_nil_of_mem_splitBy hrun ?_
    rcases run with _ | ⟨x | op, run⟩
    · rfl
    · cases h _ hrun
    · exact List.getLast?_eq_none_iff.1 (h _ hrun)
  · rw [h] at hrun
    cases hrun

theorem exists_getLast?_push_number (e : Expression) (x : Binary64) :
    ∃ y, (e.push (.number x)).tokens.getLast? = some (.number y) := by
  rcases e.eq_empty_or_concat with rfl | ⟨ts, y, rfl⟩ | ⟨ts, op, rfl⟩
  · exact ⟨x, rfl⟩
  · rw [push_number_of_number]
    exact ⟨y, List.getLast?_concat⟩
  · rw [push_of_unlike (by simp [Token.isOperator])]
    exact ⟨x, List.getLast?_concat⟩

theorem isOpen_push_operator (e : Expression) (op : Operator) : (e.push (.operator op)).IsOpen := by
  rcases e.eq_empty_or_concat with rfl | ⟨ts, y, rfl⟩ | ⟨ts, old, rfl⟩
  · exact isOpen_empty
  · rw [push_of_unlike (by simp [Token.isOperator])]
    exact isOpen_operator _ op
  · rw [push_operator_of_operator]
    exact isOpen_operator ts op

/-- The tokens end in a number just after a push of one, be it refused or not. -/
theorem exists_getLast?_pushAll_iff (pushes : List Token) :
    (∃ y, (empty.pushAll pushes).tokens.getLast? = some (.number y)) ↔
      ∃ y, pushes.getLast? = some (.number y) := by
  rcases pushes.eq_nil_or_concat' with rfl | ⟨before, x | op, rfl⟩
  · rfl
  · rw [pushAll_concat, List.getLast?_concat]
    exact ⟨fun _ => ⟨x, rfl⟩, fun _ => exists_getLast?_push_number _ x⟩
  · rw [pushAll_concat, List.getLast?_concat]
    constructor
    · rintro ⟨y, hy⟩
      exact absurd hy (isOpen_push_operator _ op y)
    · rintro ⟨y, hy⟩
      cases hy

/-- **Pushes on an empty expression.**  After any pushes the tokens are what the pushes collapse to:
operators at the start go, and after them the first of every run of numbers and the last of every
run of operators stay.  An operator is then refused if nothing but operators was pushed, a number if
the push right before it was of a number, refused or not; a push that is refused changes nothing. -/
theorem pushAll_empty (pushes : List Token) :
    (empty.pushAll pushes).tokens = collapse pushes ∧
      (∀ op, (empty.pushAll pushes).pushOperator? op = none ↔
        ∀ t ∈ pushes, t.isOperator = true) ∧
      (∀ x, (empty.pushAll pushes).pushNumber? x = none ↔
        ∃ y, pushes.getLast? = some (.number y)) ∧
      ∀ t, (empty.pushAll pushes).push? t = none →
        empty.pushAll (pushes ++ [t]) = empty.pushAll pushes := by
  have htokens := tokens_pushAll_empty pushes
  refine ⟨htokens, fun op => ?_, fun x => ?_, fun t ht => ?_⟩
  · rw [pushOperator?_eq_none_iff, ← collapse_eq_nil_iff, ← htokens]
    exact ⟨fun h => congrArg tokens h, fun h => congrArg Expression.mk h⟩
  · rw [pushNumber?_eq_none_iff, exists_getLast?_pushAll_iff]
  · rw [pushAll_concat, push, ht]
    rfl

end Expression

end Keypad
