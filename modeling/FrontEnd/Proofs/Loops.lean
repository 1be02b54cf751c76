import FrontEnd.Proofs.Reading

namespace FrontEnd.Parse

variable {α β : Type}

/-- Reading runs out of levels: it fails for that reason, or has recorded that a statement did. -/
def Overflows (p : Parse α) (s : State) : Prop :=
  (∃ pos, (p.run s).1 = .error ⟨.tooDeep maxNesting, pos⟩) ∨
    ∃ pos, ⟨.tooDeep maxNesting, pos⟩ ∈ (p.run s).2.diagnostics

theorem Overflows.of_ok {p : Parse α} {s t : State} {a : α} (h : p.Overflows s)
    (hp : p.run s = (.ok a, t)) : ∃ pos, ⟨.tooDeep maxNesting, pos⟩ ∈ t.diagnostics := by
  rw [Overflows, hp] at h
  obtain ⟨pos, hpos⟩ | hpos := h
  · cases hpos
  · exact hpos

theorem Overflows.of_error {p : Parse α} {s t : State} {e : SyntaxError} (h : p.Overflows s)
    (hp : p.run s = (.error e, t)) :
    ∃ pos, ⟨.tooDeep maxNesting, pos⟩ ∈ (t.record e).diagnostics := by
  rw [Overflows, hp] at h
  obtain ⟨pos, hpos⟩ | ⟨pos, hpos⟩ := h
  · cases hpos
    exact ⟨pos, by simp [State.record]⟩
  · exact ⟨pos, (State.advances_record t e).diagnostics.subset hpos⟩

theorem overflows_bind_left {p : Parse α} {s : State} (h : p.Overflows s) (f : α → Parse β) :
    (p >>= f).Overflows s := by
  cases hp : p.run s with
  | mk r t =>
    cases r with
    | error e => simpa only [Overflows, run_bind_error hp, hp, Except.error.injEq] using h
    | ok a =>
      obtain ⟨pos, hpos⟩ := h.of_ok hp
      refine .inr ⟨pos, ?_⟩
      rw [run_bind_ok hp]
      exact ((f a).forward t).diagnostics.subset hpos

theorem overflows_bind_right {p : Parse α} {s t : State} {a : α} (h : p.Yields s a t)
    {f : α → Parse β} (k : (f a).Overflows t) : (p >>= f).Overflows s := by
  unfold Overflows at k ⊢
  rwa [run_bind_ok h.1]

theorem yields_congr {p q : Parse α} {s t : State} {a : α} (h : p.run s = q.run s) :
    p.Yields s a t ↔ q.Yields s a t := by
  unfold Yields
  rw [h]

theorem overflows_congr {p q : Parse α} {s t : State} (h : p.run s = q.run t) :
    p.Overflows s ↔ q.Overflows t := by
  unfold Overflows
  rw [h]

def items (item : Parse α) : Parse (List α) := ⟨runItems item, advances_runItems item⟩

theorem run_items (item : Parse α) (s : State) :
    (items item).run s = (do
      let a ← item
      let next ← peek
      if next.kind = .comma then
        advance
        let as ← items item
        return a :: as
      else return [a] : Parse (List α)).run s := by
  change runItems item s = _
  rw [runItems, run_bind]
  split
  · next e t h => rw [h]
  · next a t h =>
    rw [h]
    simp only [run_bind, run_peek]
    split
    · cases hu : runItems item t.advance with
      | mk r u =>
        have hr : (items item).run t.advance = (r, u) := hu
        simp only [run_bind, run_advance, hr]
        cases r <;> rfl
    · rfl

theorem yields_items {item : Parse α} {s t : State} {as : List α} :
    (items item).Yields s as t ↔ ∃ a u, item.Yields s a u ∧
      (u.peek.kind ≠ .comma ∧ as = [a] ∧ t = u ∨
        u.peek.kind = .comma ∧ ∃ bs, as = a :: bs ∧ (items item).Yields u.advance bs t) := by
  rw [yields_congr (run_items item s), yields_bind]
  refine exists_congr fun a => exists_congr fun u => and_congr_right fun _ => ?_
  rw [yields_bind]
  simp only [yields_peek, exists_and_left, and_assoc, exists_eq_left]
  split
  · next hc =>
    simp only [yields_bind, yields_advance, yields_pure, hc]
    constructor
    · rintro ⟨-, v, rfl, bs, w, hw, rfl, rfl⟩
      exact .inr ⟨trivial, bs, rfl, hw⟩
    · rintro (⟨h, -⟩ | ⟨-, bs, rfl, hw⟩)
      · exact absurd rfl h
      · exact ⟨(), _, rfl, bs, t, hw, rfl, rfl⟩
  · next hc => simp [hc]

theorem yields_parenthesised {item : Parse α} {s t : State} {as : List α} :
    (parenthesised item).Yields s as t ↔
      s.peek.kind = .closeParen ∧ as = [] ∧ t = s.advance ∨
        s.peek.kind ≠ .closeParen ∧ ∃ u, (items item).Yields s as u ∧
          u.peek.kind = .closeParen ∧ t = u.advance := by
  unfold parenthesised
  rw [yields_bind]
  simp only [yields_peek, exists_and_left, and_assoc, exists_eq_left]
  split
  · next hc =>
    simp only [yields_bind, yields_advance, yields_pure, hc]
    simp
  · next hc =>
    simp only [yields_bind, yields_expectPeek, yields_pure]
    constructor
    · rintro ⟨bs, u, hu, token, v, ⟨hk, -, rfl⟩, rfl, rfl⟩
      exact .inr ⟨hc, u, hu, hk, rfl⟩
    · rintro (⟨h, -⟩ | ⟨-, u, hu, hk, rfl⟩)
      · exact absurd h hc
      · exact ⟨as, u, hu, _, _, ⟨hk, rfl, rfl⟩, rfl, rfl⟩

def inner (stmt : Parse Stmt) : Parse (List Stmt) := ⟨runInner stmt, advances_runInner stmt⟩

theorem yields_inner {stmt : Parse Stmt} {s t : State} {ss : List Stmt} :
    (inner stmt).Yields s ss t ↔ s.current.kind = .closeCurly ∧ ss = [] ∧ t = s ∨
      s.current.kind ≠ .closeCurly ∧ s.current.kind ≠ .eof ∧ ∃ a u as, stmt.Yields s a u ∧
        ss = a :: as ∧ (inner stmt).Yields u.advance as t := by
  constructor
  · rintro ⟨h, hd⟩
    change runInner stmt s = _ at h
    rw [runInner] at h
    split at h
    · next hc =>
      simp only [Prod.mk.injEq, Except.ok.injEq] at h
      exact .inl ⟨hc, h.1.symm, h.2.symm⟩
    · next hc =>
      split at h
      · simp at h
      · next he =>
        split at h
        · next a u hu =>
          split at h
          · next as v hv =>
            simp only [Prod.mk.injEq, Except.ok.injEq] at h
            obtain ⟨rfl, rfl⟩ := h
            have hr : (inner stmt).run u.advance = (.ok as, v) := hv
            obtain ⟨hus, hvu⟩ := (advances_of_run hu).diagnostics_eq
              ((State.advances_advance u).trans (advances_of_run hr)) hd
            exact .inr ⟨hc, he, a, u, as, ⟨hu, hus⟩, rfl, hr, hvu⟩
          · simp at h
        · next e u hu =>
          split at h
          · simp only [Prod.mk.injEq, Except.ok.injEq] at h
            refine absurd hd (State.diagnostics_ne_of_record e (advances_of_run hu) ?_)
            rw [← h.2]
            exact .refl _
          · have hr : (inner stmt).run (u.recover e).advance = (.ok ss, t) := h
            exact absurd hd (State.diagnostics_ne_of_record e (advances_of_run hu)
              ((State.record_advances_recover u e).trans
                ((State.advances_advance _).trans (advances_of_run hr))))
  · rintro (⟨hc, rfl, rfl⟩ | ⟨hc, he, a, u, as, ⟨hu, hus⟩, rfl, hr, hd⟩)
    · refine ⟨?_, rfl⟩
      change runInner stmt t = _
      rw [runInner, if_pos hc]
    · refine ⟨?_, hd.trans hus⟩
      change runInner stmt s = _
      rw [runInner, if_neg hc, dif_neg he]
      split
      · next a' u' hu' =>
        rw [hu] at hu'
        cases hu'
        change runInner stmt u.advance = _ at hr
        rw [hr]
      · next e u' hu' =>
        rw [hu] at hu'
        cases hu'

theorem overflows_inner {stmt : Parse Stmt} {s : State} (hc : s.current.kind ≠ .closeCurly)
    (he : s.current.kind ≠ .eof) (h : stmt.Overflows s) : (inner stmt).Overflows s := by
  refine .inr ?_
  change ∃ pos, _ ∈ (runInner stmt s).2.diagnostics
  rw [runInner, if_neg hc, dif_neg he]
  split
  · next a u hu =>
    obtain ⟨pos, hpos⟩ := h.of_ok hu
    have hmem := ((State.advances_advance u).trans
      (advances_runInner stmt _)).diagnostics.subset hpos
    split <;> next hv => rw [hv] at hmem; exact ⟨pos, hmem⟩
  · next e u hu =>
    obtain ⟨pos, hpos⟩ := h.of_error hu
    split
    · exact ⟨pos, hpos⟩
    · exact ⟨pos, ((State.record_advances_recover u e).trans
        ((State.advances_advance _).trans (advances_runInner stmt _))).diagnostics.subset hpos⟩

theorem overflows_inner_rest {stmt : Parse Stmt} {s u : State} {a : Stmt}
    (hc : s.current.kind ≠ .closeCurly) (he : s.current.kind ≠ .eof) (hu : stmt.Yields s a u)
    (h : (inner stmt).Overflows u.advance) : (inner stmt).Overflows s := by
  unfold Overflows at h ⊢
  change (∃ pos, (runInner stmt _).1 = _) ∨ ∃ pos, _ ∈ (runInner stmt _).2.diagnostics at h
  change (∃ pos, (runInner stmt s).1 = _) ∨ ∃ pos, _ ∈ (runInner stmt s).2.diagnostics
  rw [runInner, if_neg hc, dif_neg he]
  split
  · next a' u' hu' =>
    rw [hu.1] at hu'
    cases hu'
    split <;> next hv => rw [hv] at h; simpa using h
  · next e u' hu' =>
    rw [hu.1] at hu'
    cases hu'

def program (stmt : Parse Stmt) : Parse (List Stmt) :=
  ⟨fun s => (.ok (statements stmt s).1, (statements stmt s).2), advances_statements stmt⟩

theorem yields_program {stmt : Parse Stmt} {s t : State} {ss : List Stmt} :
    (program stmt).Yields s ss t ↔ s.current.kind = .eof ∧ ss = [] ∧ t = s ∨
      s.current.kind ≠ .eof ∧ ∃ a u as, stmt.Yields s a u ∧
        ss = a :: as ∧ (program stmt).Yields u.advance as t := by
  have hrun {u v : State} {as : List Stmt} :
      (program stmt).run u = (.ok as, v) ↔ statements stmt u = (as, v) := by
    simp only [program, Prod.ext_iff, Except.ok.injEq]
  constructor
  · rintro ⟨h, hd⟩
    rw [hrun, statements] at h
    split at h
    · next he =>
      simp only [Prod.mk.injEq] at h
      exact .inl ⟨he, h.1.symm, h.2.symm⟩
    · next he =>
      split at h
      · next a u hu =>
        simp only [Prod.mk.injEq] at h
        obtain ⟨rfl, rfl⟩ := h
        obtain ⟨hus, htu⟩ := (advances_of_run hu).diagnostics_eq
          ((State.advances_advance u).trans (advances_statements stmt _)) hd
        exact .inr ⟨he, a, u, _, ⟨hu, hus⟩, rfl, rfl, htu⟩
      · next e u hu =>
        have hr : (program stmt).run (u.recover e).advance = (.ok ss, t) := hrun.2 h
        exact absurd hd (State.diagnostics_ne_of_record e (advances_of_run hu)
          ((State.record_advances_recover u e).trans
            ((State.advances_advance _).trans (advances_of_run hr))))
  · rintro (⟨he, rfl, rfl⟩ | ⟨he, a, u, as, ⟨hu, hus⟩, rfl, hr, hd⟩)
    · refine ⟨?_, rfl⟩
      rw [hrun, statements, dif_pos he]
    · refine ⟨?_, hd.trans hus⟩
      rw [hrun, statements, dif_neg he]
      split
      · next a' u' hu' =>
        rw [hu] at hu'
        cases hu'
        rw [hrun] at hr
        rw [hr]
      · next e u' hu' =>
        rw [hu] at hu'
        cases hu'

theorem overflows_program {stmt : Parse Stmt} {s : State} (he : s.current.kind ≠ .eof)
    (h : stmt.Overflows s) : (program stmt).Overflows s := by
  refine .inr ?_
  change ∃ pos, _ ∈ (statements stmt s).2.diagnostics
  rw [statements, dif_neg he]
  split
  · next a u hu =>
    obtain ⟨pos, hpos⟩ := h.of_ok hu
    exact ⟨pos, ((State.advances_advance u).trans
      (advances_statements stmt _)).diagnostics.subset hpos⟩
  · next e u hu =>
    obtain ⟨pos, hpos⟩ := h.of_error hu
    exact ⟨pos, ((State.record_advances_recover u e).trans
      ((State.advances_advance _).trans (advances_statements stmt _))).diagnostics.subset hpos⟩

theorem overflows_program_rest {stmt : Parse Stmt} {s u : State} {a : Stmt}
    (he : s.current.kind ≠ .eof) (hu : stmt.Yields s a u)
    (h : (program stmt).Overflows u.advance) : (program stmt).Overflows s := by
  obtain ⟨pos, hpos⟩ | ⟨pos, hpos⟩ := h
  · cases hpos
  · refine .inr ⟨pos, ?_⟩
    change _ ∈ (statements stmt s).2.diagnostics
    rw [statements, dif_neg he]
    split
    · next a' u' hu' =>
      rw [hu.1] at hu'
      cases hu'
      exact hpos
    · next e u' hu' =>
      rw [hu.1] at hu'
      cases hu'

structure IsLoop (stmt : Parse Stmt) (closer : TokenKind) (loop : Parse (List Stmt)) : Prop where
  yields {s t : State} {ss : List Stmt} : loop.Yields s ss t ↔
    s.current.kind = closer ∧ ss = [] ∧ t = s ∨
      s.current.kind ≠ closer ∧ s.current.kind ≠ .eof ∧ ∃ a u as, stmt.Yields s a u ∧
        ss = a :: as ∧ loop.Yields u.advance as t
  overflows {s : State} : s.current.kind ≠ closer → s.current.kind ≠ .eof → stmt.Overflows s →
    loop.Overflows s
  overflows_rest {s u : State} {a : Stmt} : s.current.kind ≠ closer → s.current.kind ≠ .eof →
    stmt.Yields s a u → loop.Overflows u.advance → loop.Overflows s

theorem isLoop_inner (stmt : Parse Stmt) : IsLoop stmt .closeCurly (inner stmt) :=
  ⟨yields_inner, overflows_inner, overflows_inner_rest⟩

theorem isLoop_program (stmt : Parse Stmt) : IsLoop stmt .eof (program stmt) where
  yields := yields_program.trans (or_congr_right (and_congr_right fun he =>
    (and_iff_right he).symm))
  overflows he _ := overflows_program he
  overflows_rest he _ := overflows_program_rest he

theorem run_extend_stop {rules : Rules} {expr : Power → Parse Expr} {c : Power} {s : State}
    (h : rules.power s.peek.kind ≤ c) (e : Expr) :
    (extend rules expr c e).run s = (.ok e, s) := by
  change runExtend rules expr c e s = _
  rw [runExtend]
  split
  · rfl
  · split
    · rfl
    · next power rule hr =>
      have hlt : ¬ c < power := by
        rw [Rules.power, hr] at h
        exact Nat.not_lt.2 h
      rw [if_neg hlt]

theorem run_extend_step {rules : Rules} {expr : Power → Parse Expr} {c p : Power} {s : State}
    {rule : OperatorRule} (hs : s.rest ≠ []) (h : rules.operator s.peek.kind = some (p, rule))
    (hp : c < p) (e : Expr) :
    (extend rules expr c e).run s =
      (advance >>= fun _ => rule.parse expr p e >>= fun wider => extend rules expr c wider).run s := by
  change runExtend rules expr c e s = _
  rw [runExtend, dif_neg hs, h]
  simp only [hp, if_true, run_bind, run_advance]
  split
  · next ht => rw [ht]; rfl
  · next ht => rw [ht]

end FrontEnd.Parse
