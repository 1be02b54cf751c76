import FrontEnd.Proofs.Grammar
import FrontEnd.Proofs.Reading

namespace FrontEnd.Grammar

/-- What is read under a ceiling binds at least as tightly as this. -/
def floor : Power → Power
  | .lowest => .lowest
  | .equality => .relational
  | .relational => .additive
  | .additive => .multiplicative
  | .multiplicative | .unary | .call => .unary

/-- How tightly the first of the tokens that are left would extend an expression before them. -/
def pull (s : State) (after : List Token) : Power := Rules.standard.power (s.on after).current.kind

/-- Tokens that may stand behind a phrase of some power: they extend the whole of it at most, and
no `else` is taken for its own. -/
def MayFollow (s : State) (p : Power) (after : List Token) : Prop :=
  pull s after ≤ p ∧ (s.on after).current.kind ≠ .elseWord

theorem floor_le_of_lt {c p : Power} (h : c < p) : floor c ≤ p := by
  cases c <;> cases p <;> first | contradiction | decide

theorem floor_eq_tighter {p : Power} {k : TokenKind} (h : k ∈ operators p) :
    floor p = tighter p := by
  cases p <;> first | rfl | simp [operators] at h

theorem floor_le_unary (c : Power) : floor c ≤ .unary := by
  cases c <;> decide

theorem standard_operator {k : TokenKind} {p : Power} {rule : OperatorRule}
    (h : Rules.standard.operator k = some (p, rule)) :
    rule = .binary ∧ k ∈ operators p ∨ rule = .call ∧ k = .openParen ∧ p = .call := by
  cases k <;> simp only [Rules.standard, reduceCtorEq, Option.some.injEq, Prod.mk.injEq] at h <;>
    obtain ⟨rfl, rfl⟩ := h <;> simp [operators]

theorem standard_operand {k : TokenKind} {rule : OperandRule}
    (h : Rules.standard.operand k = some rule) :
    rule = .primary ∨ rule = .prefixed ∧ (k = .dash ∨ k = .not) ∨
      rule = .grouped ∧ k = .openParen ∨ rule = .conditional ∧ k = .ifWord ∨
        rule = .function ∧ k = .fnWord := by
  cases k <;> simp only [Rules.standard, reduceCtorEq, Option.some.injEq] at h <;>
    subst h <;> simp

theorem lt_of_floor_le {c p : Power} {k : TokenKind} (h : floor c ≤ p) (hk : k ∈ operators p) :
    c < p := by
  cases c <;> cases p <;> first | decide | contradiction

theorem lt_call {c : Power} (h : c ≠ .call) : c < .call := by
  cases c <;> first | decide | contradiction

theorem le_tighter (p : Power) : p ≤ tighter p := by
  cases p <;> decide

theorem ne_call_of_mem {k : TokenKind} {p : Power} (h : k ∈ operators p) : p ≠ .call := by
  rintro rfl
  simp [operators] at h

theorem le_floor {c : Power} (h : c ≠ .call) : c ≤ floor c := by
  cases c <;> first | decide | contradiction

theorem operator_of_mem {k : TokenKind} {p : Power} (h : k ∈ operators p) :
    Rules.standard.operator k = some (p, .binary) := by
  cases p <;> simp only [operators, List.mem_cons, List.not_mem_nil, or_false] at h <;>
    obtain rfl | rfl := h <;> rfl

theorem MayFollow.mono {s : State} {p q : Power} {after : List Token} (h : MayFollow s p after)
    (hpq : p ≤ q) : MayFollow s q after :=
  ⟨Nat.le_trans h.1 hpq, h.2⟩

theorem mayFollow_operator {s : State} {p : Power} {op : Token} (h : op.kind ∈ operators p)
    (after : List Token) : MayFollow s p (op :: after) := by
  have hr := operator_of_mem h
  constructor
  · simp only [pull, Rules.power, State.current_on_cons, hr, Option.map_some, Option.getD_some]
    exact Nat.le_refl _
  · intro he
    rw [State.current_on_cons] at he
    rw [he] at hr
    cases hr

theorem mayFollow_openParen {s : State} {o : Token} (h : o.kind = .openParen) (after : List Token) :
    MayFollow s .call (o :: after) :=
  ⟨le_call _, by simp [h]⟩

theorem mayFollow_lowest {s : State} {after : List Token}
    (h : Rules.standard.operator (s.on after).current.kind = none)
    (he : (s.on after).current.kind ≠ .elseWord) : MayFollow s .lowest after := by
  refine ⟨?_, he⟩
  simp only [pull, Rules.power, h]
  exact Nat.le_refl _

theorem mayFollow_of_kind {t : Token} {k : TokenKind} (ht : t.kind = k)
    (hk : Rules.standard.operator k = none ∧ k ≠ .elseWord) (s : State) (after : List Token) :
    MayFollow s .lowest (t :: after) := by
  subst ht
  exact mayFollow_lowest hk.1 hk.2

end FrontEnd.Grammar
