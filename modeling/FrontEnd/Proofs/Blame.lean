import FrontEnd.Proofs.Binding
import FrontEnd.Proofs.Ensures
import FrontEnd.Session
import FrontEnd.Tree.Equality

namespace FrontEnd.Parse

open Grammar

variable {α : Type} {expr : Power → Parse Expr} {s : State}

/-- The error found with the cursor here. After a closing brace only a closing parenthesis is ever
asked for. -/
def Blamed (e : SyntaxError) (s : State) : Prop :=
  (∀ k, e.cause ≠ .unexpected .closeParen k) ∧ e.position = s.current.position ∨
    ∃ k, s.peek.kind ≠ k ∧ e = missing k s ∧ (s.current.kind = .closeCurly → k = .closeParen)

theorem blamed_missing {k : TokenKind} (hs : s.current.kind ≠ .closeCurly) (h : s.peek.kind ≠ k) :
    Blamed (missing k s) s :=
  .inr ⟨k, h, rfl, fun hc => absurd hc hs⟩

theorem blamed_missing_closeParen (h : s.peek.kind ≠ .closeParen) :
    Blamed (missing .closeParen s) s :=
  .inr ⟨.closeParen, h, rfl, fun _ => rfl⟩

theorem blamed_current {c : Cause} (h : ∀ k, c ≠ .unexpected .closeParen k) :
    Blamed ⟨c, s.current.position⟩ s :=
  .inl ⟨h, rfl⟩

/-- Every failure from here is blamed on a token, and what is read holds of the answer. -/
abbrev Blames (p : Parse α) (s : State) (Q : α → State → Prop) : Prop := p.Ensures s Q Blamed

theorem refuse_blames {Q : α → State → Prop} : (refuse : Parse α).Blames s Q := by
  refine ensures_refuse.2 (blamed_current fun k => ?_)
  split <;> simp

theorem primary_blames : primary.Blames s fun _ _ => True := by
  simp only [Blames, primary, ensures_bind, ensures_current]
  split
  · split
    · trivial
    · exact blamed_current (by simp)
  · trivial
  · trivial
  · trivial
  · exact refuse_blames

theorem items_blame {item : Parse α}
    (h : ∀ s, s.current.kind ≠ .closeCurly → item.Blames s fun _ _ => True)
    (hs : s.current.kind ≠ .closeCurly) : (items item).Blames s fun _ _ => True := by
  refine ensures_iff.2 ⟨fun _ _ _ => trivial, fun e t ht => ?_⟩
  change runItems item s = _ at ht
  fun_induction runItems item s with
  | case1 s e' u hu =>
    cases ht
    exact (h s hs).error hu
  | case2 s a u hu hc e' v hv ih =>
    cases ht
    exact ih (by simp [hc]) hv
  | case3 s a u hu hc as v hv ih => cases ht
  | case4 s a u hu hc => cases ht

theorem parenthesised_blames {item : Parse α}
    (h : ∀ s, s.current.kind ≠ .closeCurly → item.Blames s fun _ _ => True)
    (hs : s.current.kind ≠ .closeCurly) :
    (parenthesised item).Blames s fun _ t => t.current.kind = .closeParen := by
  refine ensures_parenthesised.2 ⟨fun hc => hc, fun _ => ?_⟩
  exact (items_blame h hs).imp fun _ _ _ => ⟨fun hk => hk, blamed_missing_closeParen⟩

theorem inner_blames {stmt : Parse Stmt} : (inner stmt).Blames s fun _ _ => True := by
  refine ensures_iff.2 ⟨fun _ _ _ => trivial, fun e t ht => ?_⟩
  change runInner stmt s = _ at ht
  fun_induction runInner stmt s with
  | case1 s hc => cases ht
  | case2 s hc he =>
    cases ht
    exact blamed_current (by simp)
  | case3 s hc he a u hu as v hv ih => cases ht
  | case4 s hc he a u hu e' v hv ih =>
    cases ht
    exact ih hv
  | case5 s hc he e' u hu hk => cases ht
  | case6 s hc he e' u hu hk ih => exact ih ht

/-- A block fails only at the end of the input: the errors of its statements are recorded. -/
theorem block_blames : (block expr).Blames s fun _ _ => True :=
  ensures_block.2 inner_blames

theorem grouped_blames (h : ∀ c s, (expr c).Blames s fun _ _ => True) :
    (grouped expr).Blames s fun _ _ => True := by
  simp only [Blames, grouped, ensures_bind, ensures_advance]
  refine (h .lowest s.advance).imp fun _ u _ => ?_
  simp only [ensures_expectPeek, ensures_pure]
  exact ⟨fun _ => trivial, blamed_missing_closeParen⟩

theorem conditional_blames (h : ∀ c s, (expr c).Blames s fun _ _ => True)
    (hs : s.current.kind = .ifWord) : (conditional expr).Blames s fun _ _ => True := by
  simp only [Blames, conditional, ensures_bind, ensures_current, ensures_expectPeek,
    ensures_advance, ensures_peek]
  refine ⟨fun _ => ?_, blamed_missing (by simp [hs])⟩
  refine (h .lowest _).imp fun _ u _ => ?_
  refine ⟨fun hc => ⟨fun _ => ?_, blamed_missing (by simp [hc])⟩, blamed_missing_closeParen⟩
  refine block_blames.imp fun _ v _ => ?_
  split
  · next hw =>
    simp only [ensures_bind, ensures_advance, ensures_expectPeek]
    refine ⟨fun _ => block_blames.imp fun _ _ _ => trivial, ?_⟩
    exact blamed_missing (by simp [hw])
  · trivial

theorem parameter_blames (hs : s.current.kind ≠ .closeCurly) :
    parameter.Blames s fun _ _ => True := by
  simp only [Blames, parameter, ensures_bind, ensures_expectPeek, ensures_pure]
  exact ⟨fun _ => trivial, blamed_missing hs⟩

theorem function_blames (hs : s.current.kind = .fnWord) :
    (function expr).Blames s fun _ _ => True := by
  simp only [Blames, function, ensures_bind, ensures_current, ensures_expectPeek]
  refine ⟨fun ho => ?_, blamed_missing (by simp [hs])⟩
  refine (parenthesised_blames (fun _ => parameter_blames) (by simp [ho])).imp fun _ u hc => ?_
  refine ⟨fun _ => block_blames.imp fun _ _ _ => trivial, ?_⟩
  exact blamed_missing (by simp [hc])

theorem operand_blames (h : ∀ c s, (expr c).Blames s fun _ _ => True) :
    (operand .standard expr).Blames s fun _ _ => True := by
  simp only [Blames, operand, ensures_bind, ensures_current]
  cases hr : Rules.standard.operand s.current.kind with
  | none => exact refuse_blames
  | some rule =>
    obtain rfl | ⟨rfl, -⟩ | ⟨rfl, -⟩ | ⟨rfl, hk⟩ | ⟨rfl, hk⟩ := standard_operand hr
    · exact primary_blames
    · change (prefixed expr).Blames s _
      simp only [Blames, prefixed, ensures_bind, ensures_current, ensures_advance]
      exact h .unary s.advance
    · exact grouped_blames h
    · exact conditional_blames h hk
    · exact function_blames hk

theorem operator_blames (h : ∀ c s, (expr c).Blames s fun _ _ => True) {p : Power}
    {rule : OperatorRule} (hr : Rules.standard.operator s.current.kind = some (p, rule))
    (left : Expr) : (rule.parse expr p left).Blames s fun _ _ => True := by
  have hs : s.current.kind ≠ .closeCurly := by
    intro hk
    rw [hk] at hr
    cases hr
  obtain ⟨rfl, -⟩ | ⟨rfl, -, -⟩ := standard_operator hr
  · change (binary expr p left).Blames s _
    simp only [Blames, binary, ensures_bind, ensures_current, ensures_advance]
    exact h p s.advance
  · change (call expr left).Blames s _
    simp only [Blames, call, ensures_bind, ensures_current]
    refine (parenthesised_blames (fun u _ => ?_) hs).imp fun _ _ _ => trivial
    simp only [Blames, argument, ensures_bind, ensures_advance]
    exact h .lowest u.advance

theorem extend_blames (h : ∀ c s, (expr c).Blames s fun _ _ => True) (c : Power) (left : Expr) :
    (extend .standard expr c left).Blames s fun _ _ => True := by
  refine ensures_iff.2 ⟨fun _ _ _ => trivial, fun e t ht => ?_⟩
  change runExtend .standard expr c left s = _ at ht
  fun_induction runExtend .standard expr c left s with
  | case1 left s hs => cases ht
  | case2 left s hs hr => cases ht
  | case3 left s hs p rule hr hp wider u hu ih => exact ih ht
  | case4 left s hs p rule hr hp e' u hu =>
    cases ht
    exact (operator_blames (s := s.advance) h hr left).error hu
  | case5 left s hs p rule hr hp => cases ht

theorem expression_blames (levels : Nat) (c : Power) (s : State) :
    (expression .standard levels c).Blames s fun _ _ => True := by
  induction levels generalizing c s with
  | zero =>
    simp only [Blames, expression, ensures_bind, ensures_current, ensures_fail]
    exact blamed_current (by simp)
  | succ levels ih =>
    simp only [Blames, expression, ensures_bind]
    exact (operand_blames ih).imp fun l _ _ => extend_blames ih c l

theorem statement_blames (levels : Nat) (s : State) :
    (statement (expression .standard levels)).Blames s fun _ _ => True := by
  have h := expression_blames levels .lowest
  simp only [Blames, statement, ensures_bind, ensures_current]
  split
  · next hk =>
    have hs : s.current.kind = .letWord := hk
    simp only [letStatement, ensures_bind, ensures_current, ensures_expectPeek, ensures_advance,
      ensures_skipSemicolon]
    refine ⟨fun hn => ⟨fun _ => ?_, blamed_missing (by simp [hn])⟩, blamed_missing (by simp [hs])⟩
    exact (h _).imp fun _ _ _ => trivial
  · simp only [returnStatement, ensures_bind, ensures_current, ensures_advance,
      ensures_skipSemicolon]
    exact (h _).imp fun _ _ _ => trivial
  · simp only [expressionStatement, ensures_bind, ensures_current, ensures_skipSemicolon]
    exact (h s).imp fun _ _ _ => trivial

end FrontEnd.Parse

namespace FrontEnd

open Parse

/-- A statement that fails and leaves the cursor on a closing brace has failed at that brace, or
at the token behind it because a parenthesis was to be closed there. -/
theorem failure_at_brace (s t : Session) (e : SyntaxError) (hrules : s.rules = .standard)
    (h : s.run (statement s.expression) = (.error e, t)) (ht : t.current.kind = .closeCurly) :
    (∀ k, e.cause ≠ .unexpected .closeParen k) ∧ e.position = t.current.position ∨
      t.peek.kind ≠ .closeParen ∧
        e = ⟨.unexpected .closeParen t.peek.kind, t.peek.position⟩ := by
  obtain ⟨u, hu, rfl⟩ : ∃ u, (statement s.expression).run s.state = (.error e, u) ∧
      { s with state := u } = t := by
    simp only [Session.run, Prod.mk.injEq] at h
    exact ⟨_, Prod.ext h.1 rfl, h.2⟩
  rw [Session.expression, hrules] at hu
  obtain h | ⟨k, hk, rfl, hc⟩ := (statement_blames _ s.state).error hu
  · exact .inl h
  · obtain rfl := hc ht
    exact .inr ⟨hk, rfl⟩

theorem failure_at_brace_operand :
    let s : Session := ⟨.standard, 0, .ofSource "-a + \x7d" none⟩
    ∃ e t, s.rules = .standard ∧ s.run (statement s.expression) = (.error e, t) ∧
      t.current.kind = .closeCurly ∧
        ((∀ k, e.cause ≠ .unexpected .closeParen k) ∧ e.position = t.current.position ∨
          t.peek.kind ≠ .closeParen ∧
            e = ⟨.unexpected .closeParen t.peek.kind, t.peek.position⟩) := by
  intro s
  have hfails : (statement s.expression).Ensures s.state (fun _ _ => False)
      fun _ t => t.current.kind = .closeCurly := by decide +kernel
  obtain ⟨e, u, hu, hc⟩ := hfails.exists_error
  have h : s.run (statement s.expression) = (.error e, { s with state := u }) := by
    simp only [Session.run, hu]
  exact ⟨e, _, rfl, h, hc, failure_at_brace s _ e rfl h hc⟩

/-- The brace that ends the body of the function is under the cursor when a parenthesis is found
missing behind it. -/
theorem not_failure_at_own_brace : ¬ ∀ (s t : Session) (e : SyntaxError), s.rules = .standard →
    s.current.kind ≠ .closeCurly → s.current.kind ≠ .eof →
      s.run (statement s.expression) = (.error e, t) → t.current.kind = .closeCurly →
        e.position = t.current.position := by
  intro h
  let s : Session := ⟨.standard, 0, .ofSource "(fn() \x7b x \x7d y" none⟩
  have hfails : (statement s.expression).Ensures s.state (fun _ _ => False)
      fun e t => t.current.kind = .closeCurly ∧ e.position ≠ t.current.position := by
    decide +kernel
  obtain ⟨e, u, hu, hc, hne⟩ := hfails.exists_error
  have hrun : s.run (statement s.expression) = (.error e, { s with state := u }) := by
    simp only [Session.run, hu]
  exact hne (h s _ e rfl (by decide +kernel) (by decide +kernel) hrun hc)

end FrontEnd
