import FrontEnd.Proofs.Nesting
import FrontEnd.Proofs.Simulation

namespace FrontEnd

open Procedure Parse

/-- The rules say the same of the kinds of all tokens that are left to read, and of the end. -/
def Rules.AgreeOn (rules rules' : Rules) (s : State) : Prop :=
  ∀ t ∈ s.rest ++ [.eof s.ending], rules.operand t.kind = rules'.operand t.kind ∧
    rules.operator t.kind = rules'.operator t.kind

theorem SyntaxError.Related.eq {R : Token → Token → Prop} (hR : ∀ t u, R t u → t = u)
    {e e' : SyntaxError} (h : e.Related R e') : e = e' := by
  obtain ⟨cause, position⟩ := e
  obtain ⟨cause', position'⟩ := e'
  obtain ⟨hcause, t, u, htu, ht, hu⟩ := h
  simp only at hcause ht hu
  rw [hcause, ht, hu, hR t u htu]

theorem State.Alike.eq {R : Token → Token → Prop} (hR : ∀ t u, R t u → t = u)
    {ds : List SyntaxError} {s t : State} (h : s.Alike R ds ds t) : s = t := by
  obtain ⟨rest, stop, errors⟩ := s
  obtain ⟨rest', stop', errors'⟩ := t
  obtain ⟨hrest, hending, es, es', hes, hes', hr⟩ := h
  have htokens : rest = rest' := List.forall₂_eq_eq_eq ▸ hrest.imp hR
  have hstop : stop = stop' := congrArg Token.span (hR _ _ hending)
  have herrors : es = es' := List.forall₂_eq_eq_eq ▸ hr.imp fun _ _ he => he.eq hR
  simp only at hes hes'
  rw [htokens, hstop, hes, hes', herrors]

structure Agreed (rules rules' : Rules) (t u : Token) : Prop where
  eq : t = u
  operand : rules.operand t.kind = rules'.operand t.kind
  operator : rules.operator t.kind = rules'.operator t.kind

section

variable {rules rules' : Rules} {s : State} {ds : List SyntaxError}

theorem eq_of_agreed (t u : Token) (h : Agreed rules rules' t u) : t = u := h.eq

theorem likeness_agreed (rules rules' : Rules) : Likeness rules rules' (Agreed rules rules') where
  kind h := congrArg Token.kind h.eq
  text h := congrArg Token.text h.eq
  operand h := h.eq ▸ h.operand
  operator h := h.eq ▸ h.operator

theorem Rules.AgreeOn.alike (h : rules.AgreeOn rules' s) :
    s.Alike (Agreed rules rules') s.diagnostics s.diagnostics s := by
  have hagreed : ∀ t ∈ s.rest ++ [.eof s.ending], Agreed rules rules' t t := fun t ht =>
    ⟨rfl, (h t ht).1, (h t ht).2⟩
  exact ⟨List.forall₂_same.2 fun t ht => hagreed t (List.mem_append_left _ ht),
    hagreed _ List.mem_concat_self, [], [], by simp, by simp, .nil⟩

namespace Parse

variable {α : Type} {p q : Parse α} {ra : α → α → Prop}

theorem Simulates.run_eq
    (h : Simulates (Agreed rules rules') s.diagnostics s.diagnostics ra p q)
    (hs : rules.AgreeOn rules' s) (hra : ∀ a b, ra a b → a = b) : p.run s = q.run s := by
  have ho := h s s hs.alike
  cases hp : p.run s with
  | mk r t =>
    rw [hp] at ho
    cases r with
    | ok a =>
      obtain ⟨b, t', hq, hab, ht⟩ := ho.exists_ok
      rw [hq, hra a b hab, ht.eq eq_of_agreed]
    | error e =>
      obtain ⟨e', t', hq, he, ht⟩ := ho.exists_error
      rw [hq, he.eq eq_of_agreed, ht.eq eq_of_agreed]

/-- The rules need not agree on the tokens of the expression that is extended. -/
theorem Simulates.operator {expr expr' : Power → Parse Expr}
    (h : ∀ c, Simulates (Agreed rules rules') ds ds (Expr.Related (Agreed rules rules'))
      (expr c) (expr' c)) (rule : OperatorRule) (p : Power) (left : Expr) :
    Simulates (Agreed rules rules') ds ds Eq (rule.parse expr p left)
      (rule.parse expr' p left) := by
  have C := Simulates.congruence ds ds (likeness_agreed rules rules')
  cases rule with
  | binary =>
    refine C.bind C.current fun t u ht => C.bind C.advance fun _ _ _ => ?_
    refine C.bind (h p) fun a b hab => C.pure ?_
    rw [ht.eq, hab.eq eq_of_agreed]
  | call =>
    refine C.bind C.current fun t u ht => ?_
    refine C.bind (C.parenthesised (C.argument h)) fun as bs has => C.pure ?_
    rw [ht.eq, (Expr.relatedList_of_forall₂ has).eq eq_of_agreed]

end Parse

theorem Reading.run_parse_eq (reading : Reading) (levels : Nat) (hs : rules.AgreeOn rules' s) :
    (reading.parse (Parse.expression rules levels)).run s =
      (reading.parse (Parse.expression rules' levels)).run s := by
  have L := likeness_agreed rules rules'
  have C := Simulates.congruence s.diagnostics s.diagnostics L
  have h (c : Power) := C.expression levels c
  have hstmt {a b : Stmt} (hab : Stmt.Related (Agreed rules rules') a b) : a = b :=
    hab.eq eq_of_agreed
  have hexpr {a b : Expr} (hab : Expr.Related (Agreed rules rules') a b) : a = b :=
    hab.eq eq_of_agreed
  cases reading with
  | program =>
    obtain ⟨hss, ht⟩ := Simulates.statements L (C.statement h) hs.alike
    have hstmts := (Stmt.relatedList_of_forall₂ hss).eq eq_of_agreed
    change (Except.ok (Program.mk _), _) = (Except.ok (Program.mk _), _)
    rw [hstmts, ht.eq eq_of_agreed]
  | statement => exact (C.statement h).run_eq hs fun _ _ => hstmt
  | letStatement => exact (C.letStatement h).run_eq hs fun _ _ => hstmt
  | returnStatement => exact (C.returnStatement h).run_eq hs fun _ _ => hstmt
  | expressionStatement => exact (C.expressionStatement h).run_eq hs fun _ _ => hstmt
  | block => exact (C.block h).run_eq hs fun _ _ ha => ha.eq eq_of_agreed
  | expression ceiling => exact (h ceiling).run_eq hs fun _ _ => hexpr
  | operand rule => exact (C.rule_parse h rule).run_eq hs fun _ _ => hexpr
  | operator rule power left => exact (Simulates.operator h rule power left).run_eq hs fun _ _ => id

end

/-- On two sessions with the same left to read, the same errors recorded and as many levels open,
whose rules agree on the kinds of tokens that are left to read and on the end, everything is read
with the same outcome. -/
theorem reading_eq_of_agreeOn {s s' : Session} (hstate : s'.state = s.state)
    (hdepth : s'.depth = s.depth) (h : s.rules.AgreeOn s'.rules s.state) (reading : Reading) :
    ∃ r t t', Returns reading.answer s r t ∧ Returns reading.answer s' r t' ∧
      t'.state = t.state ∧ t'.depth = t.depth := by
  have hrun : (reading.parse (Parse.expression s'.rules (maxNesting - s'.depth))).run s'.state =
      (reading.parse (Parse.expression s.rules (maxNesting - s.depth))).run s.state := by
    rw [hstate, hdepth, reading.run_parse_eq _ h]
  have hends' := reading.answer_ends s'.rules s'.depth s'.state
  rw [hrun] at hends'
  exact ⟨_, _, _, reading.answer_ends s.rules s.depth s.state, hends', rfl, hdepth⟩

theorem reading_eq_of_agreeOn_comma :
    let s : Session := ⟨.standard, 0, .ofSource "let f = -a(1) * 2; let = !(b" none⟩
    let s' : Session := (s.register (.operator .comma .call .binary)).register
      (.operand .closeCurly .grouped)
    s'.state = s.state ∧ s'.depth = s.depth ∧ s.rules.AgreeOn s'.rules s.state ∧
      ∃ r t t', Returns Reading.program.answer s r t ∧ Returns Reading.program.answer s' r t' ∧
        t'.state = t.state ∧ t'.depth = t.depth := by
  intro s s'
  have h : s.rules.AgreeOn s'.rules s.state := by
    unfold Rules.AgreeOn
    decide +kernel
  have hstate : s'.state = s.state := rfl
  have hdepth : s'.depth = s.depth := rfl
  exact ⟨hstate, hdepth, h, reading_eq_of_agreeOn hstate hdepth h .program⟩

end FrontEnd
