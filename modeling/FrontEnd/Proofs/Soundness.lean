import FrontEnd.Proofs.Binding
import FrontEnd.Proofs.Handlers

namespace FrontEnd.Grammar

open Parse

variable {α : Type} {expr : Power → Parse Expr} {levels : Nat} {s t : State}

/-- An expression parser that reads phrases only, no deeper than so many levels, and as far as
they go. -/
def Sound (expr : Power → Parse Expr) (levels : Nat) : Prop :=
  ∀ ⦃c⦄ ⦃s : State⦄ ⦃rest e t⦄, (expr c).Yields (s.on rest) e t →
    ∃ ts last after n, rest = ts ++ after ∧ t = s.on (last :: after) ∧
      Phrase (floor c) ts e n ∧ n ≤ levels ∧ pull s after ≤ c

def Takes (item : Parse α) (P : List Token → α → Prop) : Prop :=
  ∀ ⦃s : State⦄ ⦃x rest a t⦄, item.Yields (s.on (x :: rest)) a t →
    ∃ ts last after, rest = ts ++ after ∧ t = s.on (last :: after) ∧ P ts a

theorem items_sound {item : Parse α} {P : List Token → α → Prop}
    (h : Takes item P)
    {x : Token} {rest : List Token} {as : List α}
    (hy : (items item).Yields (s.on (x :: rest)) as t) :
    ∃ ts last after, rest = ts ++ after ∧ t = s.on (last :: after) ∧ Separated P ts as := by
  induction as generalizing x rest with
  | nil =>
    obtain ⟨a, u, -, ⟨-, ha, -⟩ | ⟨-, bs, ha, -⟩⟩ := yields_items.1 hy <;> cases ha
  | cons a as ih =>
    obtain ⟨b, u, hb, ⟨hk, ha, rfl⟩ | ⟨hk, bs, ha, hbs⟩⟩ := yields_items.1 hy
    · cases ha
      obtain ⟨ts, last, after, rfl, rfl, hp⟩ := h hb
      exact ⟨ts, last, after, rfl, rfl, .one hp⟩
    · cases ha
      obtain ⟨ts, last, after, rfl, rfl, hp⟩ := h hb
      obtain ⟨_, comma, after, he, hcomma⟩ := State.eq_cons_of_peek hk (by decide)
      cases he
      obtain ⟨us, last', after', rfl, rfl, hs⟩ := ih hbs
      exact ⟨ts ++ comma :: us, last', after', by simp, rfl, .more hp hcomma hs⟩

theorem parenthesised_sound {item : Parse α} {P : List Token → α → Prop}
    (h : Takes item P)
    {x : Token} {rest : List Token} {as : List α}
    (hy : (parenthesised item).Yields (s.on (x :: rest)) as t) :
    ∃ ts c after, rest = ts ++ c :: after ∧ c.kind = .closeParen ∧ t = s.on (c :: after) ∧
      (ts = [] ∧ as = [] ∨ Separated P ts as) := by
  obtain ⟨hk, rfl, rfl⟩ | ⟨-, u, hu, hk, rfl⟩ := yields_parenthesised.1 hy
  · obtain ⟨_, c, after, he, hc⟩ := State.eq_cons_of_peek hk (by decide)
    cases he
    exact ⟨[], c, after, rfl, hc, rfl, .inl ⟨rfl, rfl⟩⟩
  · obtain ⟨ts, last, after, rfl, rfl, hs⟩ := items_sound h hu
    obtain ⟨_, c, after, he, hc⟩ := State.eq_cons_of_peek hk (by decide)
    cases he
    exact ⟨ts, c, after, rfl, hc, rfl, .inr hs⟩

theorem parameter_takes : Takes parameter Name := by
  intro s x rest i t hy
  obtain ⟨hk, rfl, rfl⟩ := yields_parameter.1 hy
  obtain ⟨_, name, after, he, hn⟩ := State.eq_cons_of_peek hk (by decide)
  cases he
  exact ⟨[name], name, after, rfl, rfl, name, hn, rfl, rfl⟩

theorem argument_takes (h : Sound expr levels) :
    Takes (argument expr) (fun ts e => ∃ n, n ≤ levels ∧ Phrase .lowest ts e n) := by
  intro s x rest e t hy
  obtain ⟨ts, last, after, n, rfl, rfl, hp, hn, -⟩ := h (yields_argument.1 hy)
  exact ⟨ts, last, after, rfl, rfl, n, hn, hp⟩

theorem items_of_separated {ts : List Token} {es : List Expr}
    (h : Separated (fun ts e => ∃ n, n ≤ levels ∧ Phrase .lowest ts e n) ts es) :
    ∃ m, m ≤ levels + 1 ∧ Items ts es m := by
  induction h with
  | one h =>
    obtain ⟨n, hn, hp⟩ := h
    exact ⟨n + 1, by omega, .one hp⟩
  | more h hc _ ih =>
    obtain ⟨n, hn, hp⟩ := h
    obtain ⟨m, hm, hi⟩ := ih
    exact ⟨max (n + 1) m, by omega, .more hp hc hi⟩

theorem call_sound (h : Sound expr levels) {o : Token} {rest : List Token} {f e : Expr}
    (hy : (call expr f).Yields (s.on (o :: rest)) e t) :
    ∃ ts c after es n, rest = ts ++ c :: after ∧ c.kind = .closeParen ∧ t = s.on (c :: after) ∧
      e = .call o f es ∧ Arguments ts es n ∧ n ≤ levels + 1 := by
  obtain ⟨es, hes, rfl⟩ := yields_call.1 hy
  obtain ⟨ts, c, after, rfl, hc, rfl, ⟨rfl, rfl⟩ | hs⟩ :=
    parenthesised_sound (argument_takes h) hes
  · exact ⟨[], c, after, [], 0, rfl, hc, rfl, rfl, .none, by omega⟩
  · obtain ⟨n, hn, hi⟩ := items_of_separated hs
    exact ⟨ts, c, after, es, n, rfl, hc, rfl, rfl, .some hi, hn⟩

/-- The loop of an expression. What was read so far is a phrase of some power `q`, and what comes
next extends no part of it, only the whole. -/
theorem extend_sound (h : Sound expr levels) {c q : Power} {ts after : List Token} {last : Token}
    {e e' : Expr} {n : Nat} (hp : Phrase q ts e n) (hn : n ≤ levels + 1) (hq : pull s after ≤ q)
    (hc : floor c ≤ q)
    (hy : (extend .standard expr c e).Yields (s.on (last :: after)) e' t) :
    ∃ us last' after' m, ts ++ after = us ++ after' ∧ t = s.on (last' :: after') ∧
      Phrase (floor c) us e' m ∧ m ≤ levels + 1 ∧ pull s after' ≤ c := by
  induction hl : after.length using Nat.strongRecOn generalizing q ts after last e n with
  | ind l ih =>
    by_cases hstop : pull s after ≤ c
    · rw [Yields, run_extend_stop (by simpa [pull] using hstop)] at hy
      obtain ⟨hy, -⟩ := hy
      cases hy
      exact ⟨ts, last, after, n, rfl, rfl, hp.lower hc, hn, hstop⟩
    · obtain ⟨op, more, rfl⟩ : ∃ op more, after = op :: more := by
        cases after with
        | nil => exact absurd (Nat.zero_le _) hstop
        | cons op more => exact ⟨op, more, rfl⟩
      obtain ⟨p, rule, hr, hcp, hpq⟩ : ∃ p rule, Rules.standard.operator op.kind = some (p, rule) ∧
          c < p ∧ p ≤ q := by
        simp only [pull, Rules.power, State.current_on_cons] at hstop hq
        cases hr : Rules.standard.operator op.kind with
        | none => rw [hr] at hstop; exact absurd (Nat.zero_le _) hstop
        | some r => rw [hr] at hstop hq; exact ⟨r.1, r.2, rfl, Nat.lt_of_not_le hstop, hq⟩
      rw [yields_congr (run_extend_step (by simp) hr hcp e)] at hy
      simp only [yields_bind, yields_advance] at hy
      obtain ⟨-, -, rfl, wider, u, hw, hy⟩ := hy
      obtain ⟨rfl, hop⟩ | ⟨rfl, hop, rfl⟩ := standard_operator hr
      · obtain ⟨r, hr', rfl⟩ := yields_binary.1 hw
        obtain ⟨us, last', after', m, rfl, rfl, hp', hm, hq'⟩ := h hr'
        rw [floor_eq_tighter hop] at hp'
        have hlt : after'.length < l := by
          rw [← hl, List.length_cons, List.length_append]
          omega
        obtain ⟨vs, hvs⟩ := ih after'.length hlt
          (.binary (hp.lower hpq) hop hp') (by omega) hq' (floor_le_of_lt hcp) hy rfl
        exact ⟨vs, by simpa using hvs⟩
      · have hq' : q = .call := by cases q <;> first | rfl | contradiction
        subst hq'
        obtain ⟨us, cl, after', es, m, rfl, hcl, rfl, rfl, ha, hm⟩ := call_sound h hw
        have hlt : after'.length < l := by
          rw [← hl, List.length_cons, List.length_append, List.length_cons]
          omega
        obtain ⟨vs, hvs⟩ := ih after'.length hlt
          (.call hp hop ha hcl) (by omega) (le_call _) (floor_le_of_lt hcp) hy rfl
        exact ⟨vs, by simpa using hvs⟩

/-- Where a statement ends: behind its semicolon, or before tokens that go on with nothing. -/
def StatementEnds (s : State) (ts rest after : List Token) (t : State) : Prop :=
  (∃ last, rest = ts ++ after ∧ t = s.on (last :: after) ∧ pull s after ≤ .lowest) ∨
    ∃ semi, semi.kind = .semicolon ∧ rest = ts ++ semi :: after ∧ t = s.on (semi :: after)

theorem StatementEnds.advance {ts rest after : List Token} (h : StatementEnds s ts rest after t) :
    t.advance = s.on after := by
  obtain ⟨last, -, rfl, -⟩ | ⟨semi, -, -, rfl⟩ := h <;> rfl

theorem statementEnds_pastSemicolon (last : Token) (ts after : List Token)
    (h : pull s after ≤ .lowest) :
    ∃ more, StatementEnds s ts (ts ++ after) more (s.on (last :: after)).pastSemicolon := by
  unfold State.pastSemicolon
  split
  · next hk =>
    obtain ⟨_, semi, more, he, hs⟩ := State.eq_cons_of_peek hk (by decide)
    cases he
    exact ⟨more, .inr ⟨semi, hs, rfl, rfl⟩⟩
  · exact ⟨after, .inl ⟨last, rfl, rfl, h⟩⟩

theorem StatementEnds.cons {t₀ : Token} {ts rest after : List Token}
    (h : StatementEnds s ts rest after t) :
    StatementEnds s (t₀ :: ts) (t₀ :: rest) after t := by
  obtain ⟨last, rfl, rfl, hp⟩ | ⟨semi, hs, rfl, rfl⟩ := h
  · exact .inl ⟨last, rfl, rfl, hp⟩
  · exact .inr ⟨semi, hs, rfl, rfl⟩

theorem statement_sound (h : Sound expr levels) {rest : List Token} {a : Stmt}
    (hy : (statement expr).Yields (s.on rest) a t) :
    ∃ ts after n, Clause ts a n ∧ n ≤ levels ∧ StatementEnds s ts rest after t := by
  obtain ⟨hk, hy⟩ | ⟨hk, hy⟩ | ⟨-, -, hy⟩ := yields_statement.1 hy
  · obtain ⟨hn, ha, e, u, he, rfl, rfl⟩ := yields_letStatement.1 hy
    obtain ⟨word, name, rest, rfl, hname⟩ := State.eq_cons_of_peek hn (by decide)
    obtain ⟨_, eq, rest, hr, heq⟩ := State.eq_cons_of_peek ha (by decide)
    cases hr
    obtain ⟨ts, last, after, n, rfl, rfl, hp, hn, hq⟩ := h he
    obtain ⟨more, hm⟩ := statementEnds_pastSemicolon last ts after hq
    exact ⟨_, more, n, .letBinding hk hname heq hp, hn, hm.cons.cons.cons⟩
  · obtain ⟨word, rest, rfl, hword⟩ := State.eq_cons_of_current hk (by decide)
    obtain ⟨e, u, he, rfl, rfl⟩ := yields_returnStatement.1 hy
    obtain ⟨ts, last, after, n, rfl, rfl, hp, hn, hq⟩ := h he
    obtain ⟨more, hm⟩ := statementEnds_pastSemicolon last ts after hq
    exact ⟨_, more, n, .ret hword hp, hn, hm.cons⟩
  · obtain ⟨e, u, he, rfl, rfl⟩ := yields_expressionStatement.1 hy
    obtain ⟨ts, last, after, n, rfl, rfl, hp, hn, hq⟩ := h he
    obtain ⟨first, us, rfl, -⟩ := hp.starts
    obtain ⟨more, hm⟩ := statementEnds_pastSemicolon last (first :: us) after hq
    exact ⟨_, more, n, .expr hp, hn, hm⟩

theorem clauses_of_statementEnds {ts rest us : List Token} {a : Stmt} {ss : List Stmt} {n m : Nat}
    (more : List Token) (hc : Clause ts a n) (he : StatementEnds s ts rest (us ++ more) t)
    (hs : Clauses us ss m) :
    ∃ vs, rest = vs ++ more ∧ Clauses vs (a :: ss) (max n m) := by
  obtain ⟨last, rfl, -, hq⟩ | ⟨semi, hsemi, rfl, -⟩ := he
  · refine ⟨ts ++ us, by simp, .bare hc ?_ hs⟩
    rintro ⟨first, hf, hk⟩
    obtain ⟨us, rfl⟩ := List.head?_eq_some_iff.1 hf
    simp only [pull, List.cons_append, State.current_on_cons] at hq
    obtain hk | hk := hk <;> rw [hk] at hq <;> contradiction
  · exact ⟨ts ++ semi :: us, by simp, .ended hc hsemi hs⟩

theorem loop_sound (h : Sound expr levels) {loop : Parse (List Stmt)} {k : TokenKind}
    (hl : IsLoop (statement expr) k loop) {rest : List Token} {ss : List Stmt}
    (hy : loop.Yields (s.on rest) ss t) :
    ∃ ts after n, rest = ts ++ after ∧ (s.on after).current.kind = k ∧ t = s.on after ∧
      Clauses ts ss n ∧ n ≤ levels := by
  induction ss generalizing rest with
  | nil =>
    obtain ⟨hk, -, rfl⟩ | ⟨-, -, a, u, as, -, ha, -⟩ := hl.yields.1 hy
    · exact ⟨[], rest, 0, rfl, hk, rfl, .nil, Nat.zero_le _⟩
    · cases ha
  | cons a ss ih =>
    obtain ⟨-, ha, -⟩ | ⟨-, -, b, u, bs, hu, ha, hy⟩ := hl.yields.1 hy
    · cases ha
    · cases ha
      obtain ⟨ts, after, n, hc, hn, he⟩ := statement_sound h hu
      rw [he.advance] at hy
      obtain ⟨us, more, m, rfl, hk, rfl, hs, hm⟩ := ih hy
      obtain ⟨vs, rfl, hvs⟩ := clauses_of_statementEnds more hc he hs
      exact ⟨vs, more, _, rfl, hk, rfl, hvs, Nat.max_le.2 ⟨hn, hm⟩⟩

theorem block_sound (h : Sound expr levels) {o : Token} {rest : List Token} {b : Block}
    (ho : o.kind = .openCurly) (hy : (block expr).Yields (s.on (o :: rest)) b t) :
    ∃ ts c after n, rest = ts ++ c :: after ∧ t = s.on (c :: after) ∧
      Body (o :: ts ++ [c]) b n ∧ n ≤ levels := by
  obtain ⟨ss, hss, rfl⟩ := yields_block.1 hy
  obtain ⟨ts, after, n, rfl, hk, rfl, hs, hn⟩ := loop_sound h (isLoop_inner _) hss
  obtain ⟨c, after, rfl, hc⟩ := State.eq_cons_of_current hk (by decide)
  exact ⟨ts, c, after, n, rfl, rfl, .mk ho hs hc, hn⟩

theorem integer?_eq_some {cs : List Char} {v : Int64} (h : Text.integer? cs = some v) :
    Text.decimal cs ≤ Text.maxInteger ∧ v = .ofNat (Text.decimal cs) := by
  unfold Text.integer? at h
  split at h
  · next hle => exact ⟨hle, (Option.some.inj h).symm⟩
  · cases h

theorem primary_sound {rest : List Token} {e : Expr} (hy : primary.Yields (s.on rest) e t) :
    ∃ tok after, rest = tok :: after ∧ t = s.on (tok :: after) ∧ Primary [tok] e 1 := by
  obtain ⟨rfl, ⟨hk, v, hv, rfl⟩ | ⟨hk, rfl⟩ | ⟨hk, rfl⟩ | ⟨hk, rfl⟩⟩ := yields_primary.1 hy
  all_goals obtain ⟨tok, after, rfl, ht⟩ := State.eq_cons_of_current hk (by decide)
  · obtain ⟨hle, rfl⟩ := integer?_eq_some hv
    exact ⟨tok, after, rfl, rfl, .number ht hle⟩
  · exact ⟨tok, after, rfl, rfl, .name ht⟩
  · exact ⟨tok, after, rfl, rfl, .yes ht⟩
  · exact ⟨tok, after, rfl, rfl, .no ht⟩

theorem grouped_sound (h : Sound expr levels) {o : Token} {rest : List Token} {e : Expr}
    (ho : o.kind = .openParen) (hy : (grouped expr).Yields (s.on (o :: rest)) e t) :
    ∃ ts last after n, o :: rest = ts ++ after ∧ t = s.on (last :: after) ∧ Primary ts e n ∧
      n ≤ levels + 1 := by
  obtain ⟨u, he, hk, rfl⟩ := yields_grouped.1 hy
  obtain ⟨ts, last, after, n, hr, rfl, hp, hn, -⟩ := h he
  obtain ⟨_, c, after, ha, hc⟩ := State.eq_cons_of_peek hk (by decide)
  cases ha
  cases hr
  exact ⟨o :: ts ++ [c], c, after, n + 1, by simp, rfl, .group ho hp hc, by omega⟩

theorem conditional_sound (h : Sound expr levels) {w : Token} {rest : List Token} {e : Expr}
    (hw : w.kind = .ifWord) (hy : (conditional expr).Yields (s.on (w :: rest)) e t) :
    ∃ ts last after n, w :: rest = ts ++ after ∧ t = s.on (last :: after) ∧ Primary ts e n ∧
      n ≤ levels + 1 := by
  obtain ⟨ho, c, u, hc, hk, hb, b, v, hbl, hor⟩ := yields_conditional.1 hy
  obtain ⟨_, o, rest, hr, ho⟩ := State.eq_cons_of_peek ho (by decide)
  cases hr
  obtain ⟨ts, last, after, n, rfl, rfl, hp, hn, -⟩ := h hc
  obtain ⟨_, c', after, ha, hc'⟩ := State.eq_cons_of_peek hk (by decide)
  cases ha
  obtain ⟨_, o', after, ha, ho'⟩ := State.eq_cons_of_peek hb (by decide)
  cases ha
  obtain ⟨us, d, after, m, rfl, rfl, hbody, hm⟩ := block_sound h ho' hbl
  obtain ⟨-, rfl, rfl⟩ | ⟨hel, ho'', b', hbl', rfl⟩ := hor
  · exact ⟨_, d, after, max n m + 1, by simp, rfl, .cond hw ho hp hc' hbody, by omega⟩
  · obtain ⟨_, el, after, ha, hel⟩ := State.eq_cons_of_peek hel (by decide)
    cases ha
    obtain ⟨_, o'', after, ha, ho''⟩ := State.eq_cons_of_peek ho'' (by decide)
    cases ha
    obtain ⟨vs, d', after, k, rfl, rfl, hbody', hk⟩ := block_sound h ho'' hbl'
    exact ⟨_, d', after, max n (max m k) + 1, by simp, rfl,
      .condElse hw ho hp hc' hbody hel hbody', by omega⟩

theorem function_sound (h : Sound expr levels) {w : Token} {rest : List Token} {e : Expr}
    (hw : w.kind = .fnWord) (hy : (function expr).Yields (s.on (w :: rest)) e t) :
    ∃ ts last after n, w :: rest = ts ++ after ∧ t = s.on (last :: after) ∧ Primary ts e n ∧
      n ≤ levels + 1 := by
  obtain ⟨ho, is, u, his, hb, b, hbl, rfl⟩ := yields_function.1 hy
  obtain ⟨_, o, rest, hr, ho⟩ := State.eq_cons_of_peek ho (by decide)
  cases hr
  obtain ⟨ts, c, after, rfl, hc, rfl, hs⟩ := parenthesised_sound parameter_takes his
  have hps : Parameters ts is := by
    obtain ⟨rfl, rfl⟩ | hs := hs
    · exact .none
    · exact .some hs
  obtain ⟨_, o', after, ha, ho'⟩ := State.eq_cons_of_peek hb (by decide)
  cases ha
  obtain ⟨us, d, after, m, rfl, rfl, hbody, hm⟩ := block_sound h ho' hbl
  exact ⟨_, d, after, m + 1, by simp, rfl, .fn hw ho hps hc hbody, by omega⟩

/-- An operand is a primary, which nothing extends from inside, or an operator before an operand,
which only operators extend. -/
theorem operand_sound (h : Sound expr levels) {rest : List Token} {e : Expr}
    (hy : (operand .standard expr).Yields (s.on rest) e t) :
    ∃ ts last after n q, rest = ts ++ after ∧ t = s.on (last :: after) ∧ Phrase q ts e n ∧
      n ≤ levels + 1 ∧ .unary ≤ q ∧ pull s after ≤ q := by
  obtain ⟨rule, hr, hy⟩ := yields_operand.1 hy
  obtain ⟨first, rest, rfl⟩ : ∃ first more, rest = first :: more := by
    cases rest with
    | nil => cases hr
    | cons first more => exact ⟨first, more, rfl⟩
  have call_of_primary {ts last after n} (hp : Primary ts e n) (hn : n ≤ levels + 1)
      (he : first :: rest = ts ++ after) (ht : t = s.on (last :: after)) :
      ∃ ts last after n q, first :: rest = ts ++ after ∧ t = s.on (last :: after) ∧
        Phrase q ts e n ∧ n ≤ levels + 1 ∧ .unary ≤ q ∧ pull s after ≤ q :=
    ⟨ts, last, after, n, .call, he, ht, .primary hp, hn, by decide, le_call _⟩
  obtain rfl | ⟨rfl, hk⟩ | ⟨rfl, hk⟩ | ⟨rfl, hk⟩ | ⟨rfl, hk⟩ := standard_operand hr
  · obtain ⟨tok, after, he, rfl, hp⟩ := primary_sound hy
    exact call_of_primary hp (by omega) he rfl
  · obtain ⟨r, hr, rfl⟩ := yields_prefixed.1 hy
    obtain ⟨ts, last, after, n, rfl, rfl, hp, hn, hq⟩ := h hr
    exact ⟨first :: ts, last, after, n + 1, .unary, rfl, rfl, .unary hk hp, by omega,
      Nat.le_refl _, hq⟩
  · obtain ⟨ts, last, after, n, he, rfl, hp, hn⟩ := grouped_sound h hk hy
    exact call_of_primary hp hn he rfl
  · obtain ⟨ts, last, after, n, he, rfl, hp, hn⟩ := conditional_sound h hk hy
    exact call_of_primary hp hn he rfl
  · obtain ⟨ts, last, after, n, he, rfl, hp, hn⟩ := function_sound h hk hy
    exact call_of_primary hp hn he rfl

theorem expression_sound (levels : Nat) : Sound (expression .standard levels) levels := by
  induction levels with
  | zero => exact fun _ _ _ _ _ hy => absurd hy not_yields_expression_zero
  | succ levels ih =>
    intro c s rest e t hy
    obtain ⟨l, u, hl, hy⟩ := yields_expression_succ.1 hy
    obtain ⟨ts, last, after, n, q, rfl, rfl, hp, hn, hq, hpull⟩ := operand_sound ih hl
    have hc : floor c ≤ q := Nat.le_trans (floor_le_unary c) hq
    obtain ⟨us, last', after', m, he, rfl, hp', hm, hpull'⟩ := extend_sound ih hp hn hpull hc hy
    exact ⟨us, last', after', m, he, rfl, hp', hm, hpull'⟩

end FrontEnd.Grammar
