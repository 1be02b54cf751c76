import FrontEnd.Rule.Power
import FrontEnd.Text.Decimal
import FrontEnd.Tree.Basic

namespace FrontEnd.Grammar

open Text

def operators : Power → List TokenKind
  | .equality => [.equals, .notEquals]
  | .relational => [.less, .greater]
  | .additive => [.plus, .dash]
  | .multiplicative => [.star, .slash]
  | .lowest | .unary | .call => []

def tighter : Power → Power
  | .lowest => .equality
  | .equality => .relational
  | .relational => .additive
  | .additive => .multiplicative
  | .multiplicative => .unary
  | .unary | .call => .call

/-- Tokens that would go on with a statement that has no semicolon. -/
def Continues (ts : List Token) : Prop :=
  ∃ t ∈ ts.head?, t.kind = .dash ∨ t.kind = .openParen

inductive Separated {α : Type} (P : List Token → α → Prop) : List Token → List α → Prop
  | one {ts a} : P ts a → Separated P ts [a]
  | more {ts a comma us as} : P ts a → comma.kind = .comma → Separated P us as →
      Separated P (ts ++ comma :: us) (a :: as)

def Name (ts : List Token) (i : Ident) : Prop :=
  ∃ t, t.kind = .identifier ∧ ts = [t] ∧ i = ⟨t, t.text⟩

inductive Parameters : List Token → List Ident → Prop
  | none : Parameters [] []
  | some {ts is} : Separated Name ts is → Parameters ts is

/- The token grammar. A derivation keeps the tokens it spells, the tree it builds and its nesting:
how many expressions stand inside one another at its deepest place. -/
mutual

/-- Expressions whose operators outside parentheses bind at least as tightly as the power. Right
operands are phrases of the next tighter one, so that operators group to the left. -/
inductive Phrase : Power → List Token → Expr → Nat → Prop
  | tighter {p ts e n} : Phrase (tighter p) ts e n → Phrase p ts e n
  | binary {p ts l n op us r m} : Phrase p ts l n → op.kind ∈ operators p →
      Phrase (tighter p) us r m →
      Phrase p (ts ++ op :: us) (.binary op l op.text r) (max n (m + 1))
  | unary {op ts e n} : op.kind = .dash ∨ op.kind = .not → Phrase .unary ts e n →
      Phrase .unary (op :: ts) (.unary op op.text e) (n + 1)
  | call {ts f n o us args m c} : Phrase .call ts f n → o.kind = .openParen →
      Arguments us args m → c.kind = .closeParen →
      Phrase .call (ts ++ o :: us ++ [c]) (.call o f args) (max n m)
  | primary {ts e n} : Primary ts e n → Phrase .call ts e n

inductive Primary : List Token → Expr → Nat → Prop
  | name {t} : t.kind = .identifier → Primary [t] (.ident ⟨t, t.text⟩) 1
  | number {t} : t.kind = .int → decimal t.text.toList ≤ maxInteger →
      Primary [t] (.int t (.ofNat (decimal t.text.toList))) 1
  | yes {t} : t.kind = .trueWord → Primary [t] (.bool t true) 1
  | no {t} : t.kind = .falseWord → Primary [t] (.bool t false) 1
  | group {o ts e n c} : o.kind = .openParen → Phrase .lowest ts e n → c.kind = .closeParen →
      Primary (o :: ts ++ [c]) e (n + 1)
  | cond {t o ts e n c us b m} : t.kind = .ifWord → o.kind = .openParen →
      Phrase .lowest ts e n → c.kind = .closeParen → Body us b m →
      Primary (t :: o :: ts ++ c :: us) (.cond t e b none) (max n m + 1)
  | condElse {t o ts e n c us b m w vs d k} : t.kind = .ifWord → o.kind = .openParen →
      Phrase .lowest ts e n → c.kind = .closeParen → Body us b m → w.kind = .elseWord →
      Body vs d k →
      Primary (t :: o :: ts ++ c :: us ++ w :: vs) (.cond t e b (some d)) (max n (max m k) + 1)
  | fn {t o ts is c us b m} : t.kind = .fnWord → o.kind = .openParen → Parameters ts is →
      c.kind = .closeParen → Body us b m →
      Primary (t :: o :: ts ++ c :: us) (.fn t is b) (m + 1)

/-- The nesting of arguments is counted from the call: one more than that of the deepest one. -/
inductive Arguments : List Token → List Expr → Nat → Prop
  | none : Arguments [] [] 0
  | some {ts es n} : Items ts es n → Arguments ts es n

inductive Items : List Token → List Expr → Nat → Prop
  | one {ts e n} : Phrase .lowest ts e n → Items ts [e] (n + 1)
  | more {ts e n comma us es m} : Phrase .lowest ts e n → comma.kind = .comma → Items us es m →
      Items (ts ++ comma :: us) (e :: es) (max (n + 1) m)

inductive Clause : List Token → Stmt → Nat → Prop
  | letBinding {t name eq ts e n} : t.kind = .letWord → name.kind = .identifier →
      eq.kind = .assignment → Phrase .lowest ts e n →
      Clause (t :: name :: eq :: ts) (.letBinding t ⟨name, name.text⟩ e) n
  | ret {t ts e n} : t.kind = .returnWord → Phrase .lowest ts e n → Clause (t :: ts) (.ret t e) n
  | expr {t ts e n} : Phrase .lowest (t :: ts) e n → Clause (t :: ts) (.expr t e) n

/-- Statements one after the other. One without a semicolon is not followed by a statement that
would go on with it. -/
inductive Clauses : List Token → List Stmt → Nat → Prop
  | nil : Clauses [] [] 0
  | ended {ts s n semi us ss m} : Clause ts s n → semi.kind = .semicolon → Clauses us ss m →
      Clauses (ts ++ semi :: us) (s :: ss) (max n m)
  | bare {ts s n us ss m} : Clause ts s n → ¬ Continues us → Clauses us ss m →
      Clauses (ts ++ us) (s :: ss) (max n m)

inductive Body : List Token → Block → Nat → Prop
  | mk {o ts ss n c} : o.kind = .openCurly → Clauses ts ss n → c.kind = .closeCurly →
      Body (o :: ts ++ [c]) (.mk o ss) n

end

theorem lowest_le (p : Power) : .lowest ≤ p := Nat.zero_le _

theorem le_call (p : Power) : p ≤ .call := by
  cases p <;> decide

theorem rank_injective {p q : Power} (h : p.rank = q.rank) : p = q := by
  cases p <;> cases q <;> first | rfl | simp [Power.rank] at h

theorem rank_tighter {p : Power} (hp : p ≠ .call) : (tighter p).rank = p.rank + 1 := by
  cases p <;> first | rfl | exact absurd rfl hp

theorem ne_call_of_lt {p q : Power} (h : p < q) : p ≠ .call := by
  rintro rfl
  exact Nat.not_le.2 h (le_call q)

theorem tighter_le {p q : Power} (h : p < q) : tighter p ≤ q := by
  change (tighter p).rank ≤ q.rank
  rw [rank_tighter (ne_call_of_lt h)]
  exact h

theorem Phrase.lower {p q : Power} {ts : List Token} {e : Expr} {n : Nat}
    (h : Phrase q ts e n) (hpq : p ≤ q) : Phrase p ts e n := by
  by_cases hne : p = q
  · exact hne ▸ h
  · have hlt : p < q := Nat.lt_of_le_of_ne hpq (mt rank_injective hne)
    exact .tighter (h.lower (tighter_le hlt))
termination_by q.rank - p.rank
decreasing_by
  have hr : p.rank < q.rank := hlt
  rw [rank_tighter (ne_call_of_lt hlt)]
  omega

theorem Phrase.pos {p : Power} {ts : List Token} {e : Expr} {n : Nat} :
    Phrase p ts e n → 0 < n
  | .tighter h => h.pos
  | .binary h _ _ => by have := h.pos; omega
  | .unary _ _ => Nat.succ_pos _
  | .call h _ _ _ => by have := h.pos; omega
  | .primary h => by cases h <;> omega

def starters : List TokenKind :=
  [.identifier, .int, .trueWord, .falseWord, .dash, .not, .openParen, .ifWord, .fnWord]

theorem Phrase.starts {p : Power} {ts : List Token} {e : Expr} {n : Nat} :
    Phrase p ts e n → ∃ t us, ts = t :: us ∧ t.kind ∈ starters
  | .tighter h => h.starts
  | .binary h _ _ => by
    obtain ⟨t, us, rfl, ht⟩ := h.starts
    exact ⟨t, _, rfl, ht⟩
  | .unary ho _ => by
    refine ⟨_, _, rfl, ?_⟩
    obtain ho | ho := ho <;> simp [starters, ho]
  | .call h _ _ _ => by
    obtain ⟨t, us, rfl, ht⟩ := h.starts
    exact ⟨t, _, rfl, ht⟩
  | .primary h => by
    cases h <;> exact ⟨_, _, rfl, by simp [starters, *]⟩

theorem Items.starts {ts : List Token} {es : List Expr} {n : Nat} :
    Items ts es n → ∃ t us, ts = t :: us ∧ t.kind ∈ starters
  | .one h => h.starts
  | .more h _ _ => by
    obtain ⟨t, us, rfl, ht⟩ := h.starts
    exact ⟨t, _, rfl, ht⟩

theorem Clause.starts {ts : List Token} {a : Stmt} {n : Nat} :
    Clause ts a n → ∃ t us, ts = t :: us ∧
      (t.kind = .letWord ∨ t.kind = .returnWord ∨ t.kind ∈ starters)
  | .letBinding ht _ _ _ => ⟨_, _, rfl, .inl ht⟩
  | .ret ht _ => ⟨_, _, rfl, .inr (.inl ht)⟩
  | .expr h => by
    obtain ⟨t, us, he, ht⟩ := h.starts
    exact ⟨t, us, he, .inr (.inr ht)⟩

theorem Clauses.starts {ts : List Token} {ss : List Stmt} {n : Nat} (h : Clauses ts ss n) :
    ts = [] ∧ ss = [] ∨ ∃ t us, ts = t :: us ∧
      (t.kind = .letWord ∨ t.kind = .returnWord ∨ t.kind ∈ starters) := by
  cases h with
  | nil => exact .inl ⟨rfl, rfl⟩
  | ended h _ _ =>
    obtain ⟨t, us, rfl, ht⟩ := h.starts
    exact .inr ⟨t, _, rfl, ht⟩
  | bare h _ _ =>
    obtain ⟨t, us, rfl, ht⟩ := h.starts
    exact .inr ⟨t, _, rfl, ht⟩

end FrontEnd.Grammar
