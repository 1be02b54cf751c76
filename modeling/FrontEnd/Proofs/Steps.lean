import FrontEnd.Proofs.Loops

namespace FrontEnd.Parse

variable {α : Type} {item : Parse α} {stmt : Parse Stmt} {s t : State} {e : SyntaxError}

theorem run_items_error (h : item.run s = (.error e, t)) : (items item).run s = (.error e, t) := by
  rw [run_items, run_bind_error h]

theorem run_items_one {a : α} (h : item.run s = (.ok a, t)) (hc : t.peek.kind ≠ .comma) :
    (items item).run s = (.ok [a], t) := by
  rw [run_items, run_bind_ok h, run_bind, run_peek]
  simp only [if_neg hc, run_pure]

theorem run_items_more {a : α} (h : item.run s = (.ok a, t)) (hc : t.peek.kind = .comma) :
    (items item).run s = (items item >>= fun as => pure (a :: as)).run t.advance := by
  rw [run_items, run_bind_ok h, run_bind, run_peek]
  simp only [if_pos hc]
  rfl

theorem run_inner_close (hc : s.current.kind = .closeCurly) : (inner stmt).run s = (.ok [], s) := by
  change runInner stmt s = _
  rw [runInner, if_pos hc]

theorem run_inner_eof (he : s.current.kind = .eof) :
    (inner stmt).run s = (.error ⟨.unexpected .closeCurly .eof, s.current.position⟩, s) := by
  change runInner stmt s = _
  rw [runInner, if_neg (by simp [he]), dif_pos he]

theorem run_inner_ok (hc : s.current.kind ≠ .closeCurly) (he : s.current.kind ≠ .eof) {a : Stmt}
    (h : stmt.run s = (.ok a, t)) :
    (inner stmt).run s = (inner stmt >>= fun as => pure (a :: as)).run t.advance := by
  change runInner stmt s = _
  rw [runInner, if_neg hc, dif_neg he, run_bind]
  split
  · next hr =>
    cases h.symm.trans hr
    cases hu : runInner stmt t.advance with
    | mk r u =>
      have hi : (inner stmt).run t.advance = (r, u) := hu
      rw [hi]
      cases r <;> rfl
  · next hr => cases h.symm.trans hr

theorem run_inner_stop (hc : s.current.kind ≠ .closeCurly) (he : s.current.kind ≠ .eof)
    (h : stmt.run s = (.error e, t)) (ht : t.current.kind = .closeCurly) :
    (inner stmt).run s = (.ok [], t.record e) := by
  change runInner stmt s = _
  rw [runInner, if_neg hc, dif_neg he]
  split
  · next hr => cases h.symm.trans hr
  · next hr =>
    cases h.symm.trans hr
    rw [if_pos ht]

theorem run_inner_recover (hc : s.current.kind ≠ .closeCurly) (he : s.current.kind ≠ .eof)
    (h : stmt.run s = (.error e, t)) (ht : t.current.kind ≠ .closeCurly) :
    (inner stmt).run s = (inner stmt).run (t.recover e).advance := by
  change runInner stmt s = runInner stmt _
  rw [runInner, if_neg hc, dif_neg he]
  split
  · next hr => cases h.symm.trans hr
  · next hr =>
    cases h.symm.trans hr
    rw [if_neg ht]

theorem statements_eof (he : s.current.kind = .eof) : statements stmt s = ([], s) := by
  rw [statements, dif_pos he]

theorem statements_ok (he : s.current.kind ≠ .eof) {a : Stmt} (h : stmt.run s = (.ok a, t)) :
    statements stmt s = (a :: (statements stmt t.advance).1, (statements stmt t.advance).2) := by
  rw [statements, dif_neg he]
  split
  · next hr =>
    cases h.symm.trans hr
    rfl
  · next hr => cases h.symm.trans hr

theorem statements_error (he : s.current.kind ≠ .eof) (h : stmt.run s = (.error e, t)) :
    statements stmt s = statements stmt (t.recover e).advance := by
  rw [statements, dif_neg he]
  split
  · next hr => cases h.symm.trans hr
  · next hr =>
    cases h.symm.trans hr
    rfl

theorem run_program (stmt : Parse Stmt) (s : State) :
    (program stmt).run s = (.ok (statements stmt s).1, (statements stmt s).2) := rfl

variable {rules : Rules} {expr : Power → Parse Expr} {c : Power}

theorem run_extend_nil (hs : s.rest = []) (a : Expr) :
    (extend rules expr c a).run s = (.ok a, s) := by
  change runExtend rules expr c a s = _
  rw [runExtend, dif_pos hs]

theorem run_extend_none (h : rules.operator s.peek.kind = none) (a : Expr) :
    (extend rules expr c a).run s = (.ok a, s) :=
  run_extend_stop (by rw [Rules.power, h]; exact Nat.zero_le _) a

theorem run_extend_loose {p : Power} {rule : OperatorRule}
    (h : rules.operator s.peek.kind = some (p, rule)) (hp : ¬ c < p) (a : Expr) :
    (extend rules expr c a).run s = (.ok a, s) :=
  run_extend_stop (by rw [Rules.power, h]; exact Nat.le_of_not_lt hp) a

theorem run_extend_ok {p : Power} {rule : OperatorRule} {a wider : Expr} (hs : s.rest ≠ [])
    (h : rules.operator s.peek.kind = some (p, rule)) (hp : c < p)
    (hw : (rule.parse expr p a).run s.advance = (.ok wider, t)) :
    (extend rules expr c a).run s = (extend rules expr c wider).run t := by
  rw [run_extend_step hs h hp, run_bind, run_advance]
  change (rule.parse expr p a >>= _).run s.advance = _
  rw [run_bind_ok hw]

theorem run_extend_error {p : Power} {rule : OperatorRule} {a : Expr} (hs : s.rest ≠ [])
    (h : rules.operator s.peek.kind = some (p, rule)) (hp : c < p)
    (hw : (rule.parse expr p a).run s.advance = (.error e, t)) :
    (extend rules expr c a).run s = (.error e, t) := by
  rw [run_extend_step hs h hp, run_bind, run_advance]
  change (rule.parse expr p a >>= _).run s.advance = _
  rw [run_bind_error hw]

end FrontEnd.Parse
