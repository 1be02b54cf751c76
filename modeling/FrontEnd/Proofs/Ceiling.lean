import FrontEnd.Proofs.Answers
import FrontEnd.Proofs.Termination
import FrontEnd.Tree.Path
import FrontEnd.Tree.Render

namespace FrontEnd

/-- The second expression is the first one, or is reached from it by left operands and callees. -/
def Expr.Extends (a b : Expr) : Prop := ∃ ks, a.Path ks b ∧ ∀ k ∈ ks, k = .left ∨ k = .callee

theorem Expr.Extends.refl (a : Expr) : a.Extends a := ⟨[], .refl a, by simp⟩

theorem Expr.Extends.of_child {a b d : Expr} {k : Edge} (h : a.Child k b)
    (hk : k = .left ∨ k = .callee) : b.Extends d → a.Extends d
  | ⟨ks, hp, hks⟩ => ⟨k :: ks, .step h hp, List.forall_mem_cons.2 ⟨hk, hks⟩⟩

namespace Parse

variable {rules : Rules} {expr : Power → Parse Expr} {b c : Power} {levels : Nat} {s t : State}
  {e : SyntaxError}

theorem operator_extends {a d : Expr} (rule : OperatorRule) (p : Power) (h : a.Extends d) :
    (rule.parse expr p a).Gives (·.Extends d) := by
  cases rule with
  | binary => exact gives_after fun _ => gives_after fun _ => gives_after fun _ =>
      gives_pure (.of_child .left (.inl rfl) h)
  | call => exact gives_after fun _ => gives_after fun _ =>
      gives_pure (.of_child .callee (.inr rfl) h)

/-- Up to the higher ceiling both loops make the same rounds, and then one of them goes on. -/
theorem run_extend_of_le (h : b ≤ c) (a : Expr) (s : State) :
    (extend rules expr b a).run s =
      (extend rules expr c a >>= fun d => extend rules expr b d).run s := by
  fun_induction runExtend rules expr c a s with
  | case1 a s hn => rw [run_bind_ok (run_extend_nil hn a)]
  | case2 a s hn hr => rw [run_bind_ok (run_extend_none hr a)]
  | case3 a s hn p rule hr hp wider t ht ih =>
    rw [run_extend_ok hn hr (Nat.lt_of_le_of_lt h hp) ht, ih, run_bind, run_bind,
      run_extend_ok hn hr hp ht]
  | case4 a s hn p rule hr hp e t ht =>
    rw [run_extend_error hn hr (Nat.lt_of_le_of_lt h hp) ht,
      run_bind_error (run_extend_error hn hr hp ht)]
  | case5 a s hn p rule hr hp => rw [run_bind_ok (run_extend_loose hr hp a)]

theorem run_expression_of_le (h : b ≤ c) (levels : Nat) (s : State) :
    (expression rules (levels + 1) b).run s = (expression rules (levels + 1) c >>= fun d =>
      extend rules (expression rules levels) b d).run s := by
  change (operand _ _ >>= fun d => extend _ _ b d).run s =
    ((operand _ _ >>= fun d => extend _ _ c d) >>= _).run s
  cases hp : (operand rules (expression rules levels)).run s with
  | mk r t =>
    cases r with
    | ok a => rw [run_bind_ok hp, run_extend_of_le h, run_bind, run_bind, run_bind_ok hp]
    | error e => rw [run_bind_error hp, run_bind_error (run_bind_error hp _)]

theorem expression_error_of_le (h : b ≤ c)
    (hc : (expression rules levels c).run s = (.error e, t)) :
    (expression rules levels b).run s = (.error e, t) := by
  cases levels with
  | zero => exact hc
  | succ levels => rw [run_expression_of_le h, run_bind_error hc]

theorem expression_ok_of_le (h : b ≤ c) {a : Expr}
    (hb : (expression rules levels b).run s = (.ok a, t)) :
    ∃ d u, (expression rules levels c).run s = (.ok d, u) ∧ a.Extends d ∧ u.Advances t := by
  cases hc : (expression rules levels c).run s with
  | mk r u =>
    cases r with
    | error e => cases hb.symm.trans (expression_error_of_le h hc)
    | ok d =>
      cases levels with
      | zero => cases hc
      | succ levels =>
        rw [run_expression_of_le h, run_bind_ok hc] at hb
        have hextends : (extend rules (expression rules levels) b d).Gives (·.Extends d) :=
          extend_gives (fun rule p _ ha => operator_extends rule p ha) b (.refl d)
        exact ⟨d, u, rfl, hextends u a t hb, advances_of_run hb⟩

theorem power_peek_of_extend {a d : Expr} (h : (extend rules expr c a).run s = (.ok d, t))
    (ht : t.rest ≠ []) : rules.power t.peek.kind ≤ c := by
  change runExtend rules expr c a s = _ at h
  fun_induction runExtend rules expr c a s with
  | case1 a s hn =>
    cases h
    exact absurd hn ht
  | case2 a s hn hr =>
    cases h
    rw [Rules.power, hr]
    exact Nat.zero_le _
  | case3 a s hn p rule hr hp wider u hu ih => exact ih h
  | case4 a s hn p rule hr hp e u hu => cases h
  | case5 a s hn p rule hr hp =>
    cases h
    rw [Rules.power, hr]
    exact Nat.le_of_not_lt hp

theorem power_peek_of_expression {a : Expr} (h : (expression rules levels c).run s = (.ok a, t)) :
    rules.power t.peek.kind ≤ c := by
  have ht : t.rest ≠ [] := ((expression_frugal levels c s).ok h).2
  cases levels with
  | zero => cases h
  | succ levels =>
    obtain ⟨d, u, -, hextend⟩ := exists_of_run_bind h
    exact power_peek_of_extend hextend ht

end Parse

open Procedure in
/-- On any session an expression is read under a lower and under a higher ceiling. A failure under
the higher ceiling is the failure under the lower one, with the same session behind it. An answer
under the lower ceiling extends the one under the higher, behind which no more was read. Behind an
answer comes nothing that binds tighter than its ceiling. -/
theorem expression_ceiling (s : Session) {b c : Power} (h : b ≤ c) :
    ∃ r t r' t', Returns (·.expression b) s r t ∧ Returns (·.expression c) s r' t' ∧
      (∀ e, r' = .error e → r = .error e ∧ t = t') ∧
      (∀ a, r = .ok a → s.rules.power t.peek.kind ≤ b ∧
        ∃ d, r' = .ok d ∧ a.Extends d ∧ t'.state.Advances t.state) ∧
      ∀ d, r' = .ok d → s.rules.power t'.peek.kind ≤ c := by
  refine ⟨_, _, _, _, expression_ends s.rules s.depth b s.state,
    expression_ends s.rules s.depth c s.state, fun e he => ?_, fun a ha => ⟨?_, ?_⟩, fun d hd => ?_⟩
  · have hrun := Parse.expression_error_of_le h (Prod.ext he rfl)
    rw [hrun]
    exact ⟨rfl, rfl⟩
  · exact Parse.power_peek_of_expression (Prod.ext ha rfl)
  · obtain ⟨d, u, hd, hext, hadv⟩ := Parse.expression_ok_of_le h (Prod.ext ha rfl)
    rw [hd]
    exact ⟨d, rfl, hext, hadv⟩
  · exact Parse.power_peek_of_expression (Prod.ext hd rfl)

open Procedure in
theorem expression_ceiling_comma :
    let s : Session := (⟨.standard, 0, .ofSource "f(x) * y - z, w == v" none⟩ : Session).register
      (.operator .comma .relational .binary)
    Power.equality ≤ .multiplicative ∧ ∃ a d t t',
      Returns (·.expression .equality) s (.ok a) t ∧ a.render = "(((f(x) * y) - z) , w)" ∧
      Returns (·.expression .multiplicative) s (.ok d) t' ∧ d.render = "f(x)" ∧
      a.Extends d ∧ t'.state.Advances t.state ∧
        s.rules.power t.peek.kind ≤ .equality ∧ s.rules.power t'.peek.kind ≤ .multiplicative := by
  intro s
  have hle : Power.equality ≤ .multiplicative := by decide
  obtain ⟨r, t, r', t', hr, hr', -, hok, hpower⟩ := expression_ceiling s hle
  have hrun : r.toOption.map Expr.render = some "(((f(x) * y) - z) , w)" := by
    rw [(hr.unique (expression_ends s.rules s.depth .equality s.state)).1]
    decide +kernel
  have hrun' : r'.toOption.map Expr.render = some "f(x)" := by
    rw [(hr'.unique (expression_ends s.rules s.depth .multiplicative s.state)).1]
    decide +kernel
  cases r with
  | error e => cases hrun
  | ok a =>
    obtain ⟨hlow, d, rfl, hextends, hadvances⟩ := hok a rfl
    exact ⟨hle, a, d, t, t', hr, Option.some.inj hrun, hr', Option.some.inj hrun', hextends,
      hadvances, hlow, hpower d rfl⟩

end FrontEnd
