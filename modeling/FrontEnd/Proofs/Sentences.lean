import FrontEnd.Proofs.Binding

namespace FrontEnd.Grammar

open Text

mutual

/-- Expressions whose operators outside parentheses bind at least as tightly as the power. -/
inductive Term : Power → List Token → Prop
  | tighter {p ts} : Term (tighter p) ts → Term p ts
  | binary {p ts op us} : Term p ts → op.kind ∈ operators p → Term (tighter p) us →
      Term p (ts ++ op :: us)
  | unary {op ts} : op.kind = .dash ∨ op.kind = .not → Term .unary ts → Term .unary (op :: ts)
  | call {ts o us c} : Term .call ts → o.kind = .openParen → Terms us → c.kind = .closeParen →
      Term .call (ts ++ o :: us ++ [c])
  | name {t} : t.kind = .identifier → Term .call [t]
  | number {t} : t.kind = .int → decimal t.text.toList ≤ maxInteger → Term .call [t]
  | yes {t} : t.kind = .trueWord → Term .call [t]
  | no {t} : t.kind = .falseWord → Term .call [t]
  | group {o ts c} : o.kind = .openParen → Term .lowest ts → c.kind = .closeParen →
      Term .call (o :: ts ++ [c])
  | cond {t o ts c us} : t.kind = .ifWord → o.kind = .openParen → Term .lowest ts →
      c.kind = .closeParen → Braced us → Term .call (t :: o :: ts ++ c :: us)
  | condElse {t o ts c us w vs} : t.kind = .ifWord → o.kind = .openParen → Term .lowest ts →
      c.kind = .closeParen → Braced us → w.kind = .elseWord → Braced vs →
      Term .call (t :: o :: ts ++ c :: us ++ w :: vs)
  | fn {t o ts is c us} : t.kind = .fnWord → o.kind = .openParen → Parameters ts is →
      c.kind = .closeParen → Braced us → Term .call (t :: o :: ts ++ c :: us)

inductive Terms : List Token → Prop
  | none : Terms []
  | some {ts} : SomeTerms ts → Terms ts

inductive SomeTerms : List Token → Prop
  | one {ts} : Term .lowest ts → SomeTerms ts
  | more {ts comma us} : Term .lowest ts → comma.kind = .comma → SomeTerms us →
      SomeTerms (ts ++ comma :: us)

inductive Simple : List Token → Prop
  | letBinding {t name eq ts} : t.kind = .letWord → name.kind = .identifier →
      eq.kind = .assignment → Term .lowest ts → Simple (t :: name :: eq :: ts)
  | ret {t ts} : t.kind = .returnWord → Term .lowest ts → Simple (t :: ts)
  | expr {ts} : Term .lowest ts → Simple ts

/-- Statements, each with or without a semicolon. Here one without may also stand before one that
could go on with it: the tokens are then those of one longer statement. -/
inductive Sentence : List Token → Prop
  | nil : Sentence []
  | ended {ts semi us} : Simple ts → semi.kind = .semicolon → Sentence us →
      Sentence (ts ++ semi :: us)
  | bare {ts us} : Simple ts → Sentence us → Sentence (ts ++ us)

inductive Braced : List Token → Prop
  | mk {o ts c} : o.kind = .openCurly → Sentence ts → c.kind = .closeCurly → Braced (o :: ts ++ [c])

end

theorem continues_cons {t : Token} {ts : List Token} :
    Continues (t :: ts) ↔ t.kind = .dash ∨ t.kind = .openParen := by
  simp [Continues]

theorem Phrase.append_operator {q low : Power} {op : Token} {us : List Token} {r : Expr} {m : Nat}
    (hop : op.kind ∈ operators q) (hr : Phrase (Grammar.tighter q) us r m) (hlq : low ≤ q)
    {p : Power} {ts : List Token} {e : Expr} {n : Nat} (h : Phrase p ts e n) (hlp : low ≤ p) :
    ∃ e n, Phrase low (ts ++ op :: us) e n := by
  by_cases hqp : q ≤ p
  · exact ⟨_, _, (Phrase.binary (h.lower hqp) hop hr).lower hlq⟩
  · have hpq : p < q := Nat.lt_of_not_le hqp
    match h with
    | .tighter h => exact append_operator hop hr hlq h (Nat.le_trans hlp (le_tighter p))
    | .binary hl hop' hr' =>
      obtain ⟨_, _, hr'⟩ := append_operator hop hr (tighter_le hpq) hr' (Nat.le_refl _)
      have hwhole := (Phrase.binary hl hop' hr').lower hlp
      exact ⟨_, _, by simpa using hwhole⟩
    | .unary _ _ =>
      have hq : q = .call := by cases q <;> first | rfl | contradiction
      exact absurd hq (ne_call_of_mem hop)
    | .call _ _ _ _ => exact absurd (le_call q) hqp
    | .primary _ => exact absurd (le_call q) hqp

theorem Phrase.append_call {o c : Token} {us : List Token} {es : List Expr} {m : Nat}
    (ho : o.kind = .openParen) (ha : Arguments us es m) (hc : c.kind = .closeParen) {p : Power}
    {ts : List Token} {e : Expr} {n : Nat} :
    Phrase p ts e n → ∃ e n, Phrase p (ts ++ o :: us ++ [c]) e n
  | .tighter h => by
    obtain ⟨e, n, h⟩ := h.append_call ho ha hc
    exact ⟨e, n, .tighter h⟩
  | .binary hl hop hr => by
    obtain ⟨_, _, hr⟩ := hr.append_call ho ha hc
    have hwhole := Phrase.binary hl hop hr
    exact ⟨_, _, by simpa using hwhole⟩
  | .unary hop h => by
    obtain ⟨r, m, h⟩ := h.append_call ho ha hc
    exact ⟨_, _, .unary hop h⟩
  | .call h ho' ha' hc' => ⟨_, _, .call (.call h ho' ha' hc') ho ha hc⟩
  | .primary h => ⟨_, _, .call (.primary h) ho ha hc⟩

theorem Phrase.continues {p : Power} {ts us : List Token} {e : Expr} {n : Nat}
    (h : Phrase p ts e n) (hc : Continues (ts ++ us)) : Continues ts := by
  obtain ⟨t, vs, rfl, -⟩ := h.starts
  exact continues_cons.2 (continues_cons.1 hc)

/-- Of the primaries only a group goes on with what stands before it. -/
theorem Primary.group_of_continues {ts : List Token} {e : Expr} {n : Nat} (h : Primary ts e n)
    (hc : Continues ts) : ∃ o us c m, ts = o :: us ++ [c] ∧ o.kind = .openParen ∧
      c.kind = .closeParen ∧ Phrase .lowest us e m := by
  cases h with
  | group ho he hcl => exact ⟨_, _, _, _, rfl, ho, hcl, he⟩
  | _ => simp_all [continues_cons]

theorem additive_of_continues {op : Token} {ts : List Token}
    (h : op.kind = .dash ∨ op.kind = .not) (hc : Continues (op :: ts)) :
    op.kind ∈ operators .additive := by
  obtain hk | hk := h
  · simp [hk, operators]
  · simp [continues_cons, hk] at hc

/-- Two expressions side by side are one, if the second begins with a minus or a parenthesis. -/
theorem Phrase.append_phrase {p : Power} {ts : List Token} {e : Expr} {n : Nat}
    (h : Phrase p ts e n) {q : Power} {us : List Token} {r : Expr} {m : Nat} :
    Phrase q us r m → Continues us → ∃ e n, Phrase .lowest (ts ++ us) e n
  | .tighter hr, hc => h.append_phrase hr hc
  | .binary hl hop hr, hc => by
    obtain ⟨_, _, hl⟩ := h.append_phrase hl (hl.continues hc)
    obtain ⟨e, n, he⟩ := Phrase.append_operator hop hr (lowest_le _) hl (Nat.le_refl _)
    exact ⟨e, n, by simpa using he⟩
  | .unary hop hr, hc =>
    -- the minus that would stand before the second is then one between the two
    Phrase.append_operator (additive_of_continues hop hc) (hr.lower (by decide)) (lowest_le _) h
      (lowest_le _)
  | @Phrase.call us f _ o vs _ _ c hf ho ha hcl, hc => by
    rw [List.append_assoc] at hc
    obtain ⟨_, _, hf⟩ := h.append_phrase hf (hf.continues hc)
    obtain ⟨e, n, he⟩ := hf.append_call ho ha hcl
    exact ⟨e, n, by simpa using he⟩
  | .primary hr, hc => by
    obtain ⟨o, vs, c, k, rfl, ho, hcl, hg⟩ := hr.group_of_continues hc
    obtain ⟨e, n, he⟩ := (h.lower (lowest_le _)).append_call ho (.some (.one hg)) hcl
    exact ⟨e, n, by simpa using he⟩

theorem Clause.append_phrase {ts us : List Token} {a : Stmt} {n m : Nat} {q : Power} {r : Expr}
    (h : Clause ts a n) (hr : Phrase q us r m) (hc : Continues us) :
    ∃ a n, Clause (ts ++ us) a n := by
  cases h with
  | letBinding ht hname heq hp =>
    obtain ⟨_, _, hp⟩ := hp.append_phrase hr hc
    exact ⟨_, _, .letBinding ht hname heq hp⟩
  | ret ht hp =>
    obtain ⟨_, _, hp⟩ := hp.append_phrase hr hc
    exact ⟨_, _, .ret ht hp⟩
  | expr hp =>
    obtain ⟨_, _, hp⟩ := hp.append_phrase hr hc
    exact ⟨_, _, .expr hp⟩

theorem Clause.phrase_of_continues {ts us : List Token} {a : Stmt} {n : Nat} (h : Clause ts a n)
    (hc : Continues (ts ++ us)) : Continues ts ∧ ∃ e, Phrase .lowest ts e n := by
  cases h with
  | letBinding ht _ _ _ => simp_all [continues_cons]
  | ret ht _ => simp_all [continues_cons]
  | expr hp => exact ⟨continues_cons.2 (continues_cons.1 hc), _, hp⟩

/-- A statement without a semicolon may stand before any others: if the first of them goes on with
it, both are one. -/
theorem Clauses.bare_append {ts us : List Token} {a : Stmt} {ss : List Stmt} {n m : Nat}
    (h : Clause ts a n) (hs : Clauses us ss m) : ∃ ss n, Clauses (ts ++ us) ss n := by
  by_cases hc : Continues us
  · cases hs with
    | nil => simp [Continues] at hc
    | ended hb hsemi hs =>
      obtain ⟨hc, _, hp⟩ := hb.phrase_of_continues hc
      obtain ⟨_, _, h⟩ := h.append_phrase hp hc
      exact ⟨_, _, by simpa using Clauses.ended h hsemi hs⟩
    | bare hb hcon hs =>
      obtain ⟨hc, _, hp⟩ := hb.phrase_of_continues hc
      obtain ⟨_, _, h⟩ := h.append_phrase hp hc
      exact ⟨_, _, by simpa using Clauses.bare h hcon hs⟩
  · exact ⟨_, _, .bare h hc hs⟩

mutual

theorem Term.phrase {p : Power} {ts : List Token} : Term p ts → ∃ e n, Phrase p ts e n
  | .tighter h => by
    obtain ⟨e, n, h⟩ := h.phrase
    exact ⟨e, n, .tighter h⟩
  | .binary hl hop hr => by
    obtain ⟨_, _, hl⟩ := hl.phrase
    obtain ⟨_, _, hr⟩ := hr.phrase
    exact ⟨_, _, .binary hl hop hr⟩
  | .unary hop h => by
    obtain ⟨_, _, h⟩ := h.phrase
    exact ⟨_, _, .unary hop h⟩
  | .call h ho ha hc => by
    obtain ⟨_, _, h⟩ := h.phrase
    obtain ⟨_, _, ha⟩ := ha.arguments
    exact ⟨_, _, .call h ho ha hc⟩
  | .name hk => ⟨_, _, .primary (.name hk)⟩
  | .number hk hle => ⟨_, _, .primary (.number hk hle)⟩
  | .yes hk => ⟨_, _, .primary (.yes hk)⟩
  | .no hk => ⟨_, _, .primary (.no hk)⟩
  | .group ho h hc => by
    obtain ⟨_, _, h⟩ := h.phrase
    exact ⟨_, _, .primary (.group ho h hc)⟩
  | .cond ht ho h hc hb => by
    obtain ⟨_, _, h⟩ := h.phrase
    obtain ⟨_, _, hb⟩ := hb.body
    exact ⟨_, _, .primary (.cond ht ho h hc hb)⟩
  | .condElse ht ho h hc hb hw hd => by
    obtain ⟨_, _, h⟩ := h.phrase
    obtain ⟨_, _, hb⟩ := hb.body
    obtain ⟨_, _, hd⟩ := hd.body
    exact ⟨_, _, .primary (.condElse ht ho h hc hb hw hd)⟩
  | .fn ht ho hp hc hb => by
    obtain ⟨_, _, hb⟩ := hb.body
    exact ⟨_, _, .primary (.fn ht ho hp hc hb)⟩

theorem Terms.arguments {ts : List Token} : Terms ts → ∃ es n, Arguments ts es n
  | .none => ⟨_, _, .none⟩
  | .some h => by
    obtain ⟨_, _, h⟩ := h.items
    exact ⟨_, _, .some h⟩

theorem SomeTerms.items {ts : List Token} : SomeTerms ts → ∃ es n, Items ts es n
  | .one h => by
    obtain ⟨_, _, h⟩ := h.phrase
    exact ⟨_, _, .one h⟩
  | .more h hc hs => by
    obtain ⟨_, _, h⟩ := h.phrase
    obtain ⟨_, _, hs⟩ := hs.items
    exact ⟨_, _, .more h hc hs⟩

theorem Simple.clause {ts : List Token} : Simple ts → ∃ a n, Clause ts a n
  | .letBinding ht hname heq h => by
    obtain ⟨_, _, h⟩ := h.phrase
    exact ⟨_, _, .letBinding ht hname heq h⟩
  | .ret ht h => by
    obtain ⟨_, _, h⟩ := h.phrase
    exact ⟨_, _, .ret ht h⟩
  | .expr h => by
    obtain ⟨_, _, h⟩ := h.phrase
    obtain ⟨_, _, rfl, -⟩ := h.starts
    exact ⟨_, _, .expr h⟩

theorem Sentence.clauses {ts : List Token} : Sentence ts → ∃ ss n, Clauses ts ss n
  | .nil => ⟨_, _, .nil⟩
  | .ended h hsemi hs => by
    obtain ⟨_, _, h⟩ := h.clause
    obtain ⟨_, _, hs⟩ := hs.clauses
    exact ⟨_, _, .ended h hsemi hs⟩
  | .bare h hs => by
    obtain ⟨_, _, h⟩ := h.clause
    obtain ⟨_, _, hs⟩ := hs.clauses
    exact Clauses.bare_append h hs

theorem Braced.body {ts : List Token} : Braced ts → ∃ b n, Body ts b n
  | .mk ho h hc => by
    obtain ⟨_, _, h⟩ := h.clauses
    exact ⟨_, _, .mk ho h hc⟩

end

theorem Term.lower {p q : Power} {ts : List Token} (h : Term q ts) (hpq : p ≤ q) : Term p ts := by
  by_cases hne : p = q
  · exact hne ▸ h
  · have hlt : p < q := Nat.lt_of_le_of_ne hpq (mt rank_injective hne)
    exact .tighter (h.lower (tighter_le hlt))
termination_by q.rank - p.rank
decreasing_by
  have hr : p.rank < q.rank := hlt
  rw [rank_tighter (ne_call_of_lt hlt)]
  omega

end FrontEnd.Grammar
