import FrontEnd.Proofs.Congruence
import FrontEnd.Proofs.Steps

namespace FrontEnd

structure SyntaxError.Related (R : Token → Token → Prop) (e e' : SyntaxError) : Prop where
  cause : e.cause = e'.cause
  position : ∃ t u, R t u ∧ e.position = t.position ∧ e'.position = u.position

variable {rules rules' : Rules} {R : Token → Token → Prop} {ds ds' : List SyntaxError}

variable (R ds ds') in
/-- States with related tokens left, and related errors since some were recorded. -/
structure State.Alike (s s' : State) : Prop where
  rest : List.Forall₂ R s.rest s'.rest
  ending : R (.eof s.ending) (.eof s'.ending)
  diagnostics : ∃ es es', s.diagnostics = ds ++ es ∧ s'.diagnostics = ds' ++ es' ∧
    List.Forall₂ (SyntaxError.Related R) es es'

namespace State.Alike

variable {s s' : State}

theorem current (h : s.Alike R ds ds' s') : R s.current s'.current := by
  have hrest := h.rest
  unfold State.current
  cases hts : s.rest <;> cases hus : s'.rest <;> rw [hts, hus] at hrest <;> cases hrest
  · exact h.ending
  · assumption

theorem advance (h : s.Alike R ds ds' s') : s.advance.Alike R ds ds' s'.advance where
  rest := by
    have hrest := h.rest
    unfold State.advance
    cases hts : s.rest <;> cases hus : s'.rest <;> rw [hts, hus] at hrest <;> cases hrest
    · exact .nil
    · assumption
  ending := h.ending
  diagnostics := h.diagnostics

theorem peek (h : s.Alike R ds ds' s') : R s.peek s'.peek := h.advance.current

theorem rest_eq_nil_iff (h : s.Alike R ds ds' s') : s'.rest = [] ↔ s.rest = [] := by
  rw [← List.length_eq_zero_iff, ← List.length_eq_zero_iff, h.rest.length_eq]

theorem record (h : s.Alike R ds ds' s') {e e' : SyntaxError} (he : e.Related R e') :
    (s.record e).Alike R ds ds' (s'.record e') where
  rest := h.rest
  ending := h.ending
  diagnostics := by
    obtain ⟨es, es', hes, hes', hr⟩ := h.diagnostics
    refine ⟨es ++ [e], es' ++ [e'], ?_, ?_, List.rel_append hr (.cons he .nil)⟩
    · simp [State.record, hes]
    · simp [State.record, hes']

theorem recover (L : Parse.Likeness rules rules' R) (h : s.Alike R ds ds' s') {e e' : SyntaxError}
    (he : e.Related R e') : (s.recover e).Alike R ds ds' (s'.recover e') := by
  unfold State.recover
  rw [L.kind h.peek]
  split
  · exact (h.record he).advance
  · exact h.record he

end State.Alike

namespace Parse

variable {α β : Type} {ra : α → β → Prop}

variable (R ds ds' ra) in
inductive Outcome : Except SyntaxError α × State → Except SyntaxError β × State → Prop
  | ok {a b t t'} : ra a b → State.Alike R ds ds' t t' → Outcome (.ok a, t) (.ok b, t')
  | error {e e' t t'} : e.Related R e' → State.Alike R ds ds' t t' →
      Outcome (.error e, t) (.error e', t')

variable (R ds ds' ra) in
/-- From states that are alike the two parsers have outcomes that are alike. -/
def Simulates (p : Parse α) (q : Parse β) : Prop :=
  ∀ s s', State.Alike R ds ds' s s' → Outcome R ds ds' ra (p.run s) (q.run s')

variable {s s' : State}

theorem Outcome.exists_ok {a : α} {t : State} {r : Except SyntaxError β × State}
    (h : Outcome R ds ds' ra (.ok a, t) r) :
    ∃ b t', r = (.ok b, t') ∧ ra a b ∧ State.Alike R ds ds' t t' := by
  cases h with
  | ok hab ht => exact ⟨_, _, rfl, hab, ht⟩

theorem Outcome.exists_error {e : SyntaxError} {t : State} {r : Except SyntaxError β × State}
    (h : Outcome R ds ds' ra (.error e, t) r) :
    ∃ e' t', r = (.error e', t') ∧ e.Related R e' ∧ State.Alike R ds ds' t t' := by
  cases h with
  | error he ht => exact ⟨_, _, rfl, he, ht⟩

namespace Simulates

theorem ok {p : Parse α} {q : Parse β} (h : Simulates R ds ds' ra p q)
    (hs : State.Alike R ds ds' s s') {a : α} {t : State} (hp : p.run s = (.ok a, t)) :
    ∃ b t', q.run s' = (.ok b, t') ∧ ra a b ∧ State.Alike R ds ds' t t' := by
  have ho := h s s' hs
  rw [hp] at ho
  exact ho.exists_ok

theorem error {p : Parse α} {q : Parse β} (h : Simulates R ds ds' ra p q)
    (hs : State.Alike R ds ds' s s') {e : SyntaxError} {t : State} (hp : p.run s = (.error e, t)) :
    ∃ e' t', q.run s' = (.error e', t') ∧ e.Related R e' ∧ State.Alike R ds ds' t t' := by
  have ho := h s s' hs
  rw [hp] at ho
  exact ho.exists_error

theorem bind {γ δ : Type} {rc : γ → δ → Prop} {p : Parse α} {q : Parse β} {f : α → Parse γ}
    {g : β → Parse δ} (h : Simulates R ds ds' ra p q)
    (k : ∀ a b, ra a b → Simulates R ds ds' rc (f a) (g b)) :
    Simulates R ds ds' rc (p >>= f) (q >>= g) := by
  intro s s' hs
  cases hp : p.run s with
  | mk r t =>
    cases r with
    | ok a =>
      obtain ⟨b, t', hq, hab, ht⟩ := h.ok hs hp
      rw [run_bind_ok hp, run_bind_ok hq]
      exact k a b hab t t' ht
    | error e =>
      obtain ⟨e', t', hq, he, ht⟩ := h.error hs hp
      rw [run_bind_error hp, run_bind_error hq]
      exact .error he ht

protected theorem pure {a : α} {b : β} (h : ra a b) : Simulates R ds ds' ra (pure a) (pure b) :=
  fun _ _ hs => .ok h hs

theorem current : Simulates R ds ds' R current current := fun _ _ hs => .ok hs.current hs

theorem peek : Simulates R ds ds' R peek peek := fun _ _ hs => .ok hs.peek hs

theorem advance : Simulates R ds ds' Eq advance advance := fun _ _ hs => .ok rfl hs.advance

theorem fail {t u : Token} (c : Cause) (h : R t u) :
    Simulates R ds ds' ra (fail c t.position) (fail c u.position) :=
  fun _ _ hs => .error ⟨rfl, t, u, h, rfl, rfl⟩ hs

theorem items {p : Parse α} {q : Parse β} (L : Likeness rules rules' R)
    (h : Simulates R ds ds' ra p q) :
    Simulates R ds ds' (List.Forall₂ ra) (items p) (items q) := by
  intro s s' hs
  change Outcome R ds ds' _ (runItems p s) _
  fun_induction runItems p s generalizing s' with
  | case1 s e t hp =>
    obtain ⟨e', t', hq, he, ht⟩ := h.error hs hp
    rw [run_items_error hq]
    exact .error he ht
  | case2 s a t hp hc e v hv ih =>
    obtain ⟨b, t', hq, hab, ht⟩ := h.ok hs hp
    have ho := ih t'.advance ht.advance
    rw [hv] at ho
    obtain ⟨e', v', hv', he, hv⟩ := ho.exists_error
    rw [run_items_more hq (L.kind ht.peek ▸ hc), run_bind_error hv']
    exact .error he hv
  | case3 s a t hp hc as v hv ih =>
    obtain ⟨b, t', hq, hab, ht⟩ := h.ok hs hp
    have ho := ih t'.advance ht.advance
    rw [hv] at ho
    obtain ⟨bs, v', hv', has, hv⟩ := ho.exists_ok
    rw [run_items_more hq (L.kind ht.peek ▸ hc), run_bind_ok hv']
    exact .ok (.cons hab has) hv
  | case4 s a t hp hc =>
    obtain ⟨b, t', hq, hab, ht⟩ := h.ok hs hp
    rw [run_items_one hq (L.kind ht.peek ▸ hc)]
    exact .ok (.cons hab .nil) ht

theorem inner {p q : Parse Stmt} (L : Likeness rules rules' R)
    (h : Simulates R ds ds' (Stmt.Related R) p q) :
    Simulates R ds ds' (List.Forall₂ (Stmt.Related R)) (inner p) (inner q) := by
  intro s s' hs
  change Outcome R ds ds' _ (runInner p s) _
  have hkind := L.kind hs.current
  fun_induction runInner p s generalizing s' with
  | case1 s hc =>
    rw [run_inner_close (hkind ▸ hc)]
    exact .ok .nil hs
  | case2 s hc he =>
    rw [run_inner_eof (hkind ▸ he)]
    exact .error ⟨rfl, _, _, hs.current, rfl, rfl⟩ hs
  | case3 s hc he a u hu as v hv ih =>
    obtain ⟨b, u', hu', hab, hau⟩ := h.ok hs hu
    have ho := ih u'.advance hau.advance (L.kind hau.advance.current)
    rw [hv] at ho
    obtain ⟨bs, v', hv', has, hav⟩ := ho.exists_ok
    rw [run_inner_ok (hkind ▸ hc) (hkind ▸ he) hu', run_bind_ok hv']
    exact .ok (.cons hab has) hav
  | case4 s hc he a u hu e v hv ih =>
    obtain ⟨b, u', hu', hab, hau⟩ := h.ok hs hu
    have ho := ih u'.advance hau.advance (L.kind hau.advance.current)
    rw [hv] at ho
    obtain ⟨e', v', hv', he', hav⟩ := ho.exists_error
    rw [run_inner_ok (hkind ▸ hc) (hkind ▸ he) hu', run_bind_error hv']
    exact .error he' hav
  | case5 s hc he e u hu hk =>
    obtain ⟨e', u', hu', he', hau⟩ := h.error hs hu
    rw [run_inner_stop (hkind ▸ hc) (hkind ▸ he) hu' (L.kind hau.current ▸ hk)]
    exact .ok .nil (hau.record he')
  | case6 s hc he e u hu hk ih =>
    obtain ⟨e', u', hu', he', hau⟩ := h.error hs hu
    have hnext := (hau.recover L he').advance
    rw [run_inner_recover (hkind ▸ hc) (hkind ▸ he) hu' (L.kind hau.current ▸ hk)]
    exact ih _ hnext (L.kind hnext.current)

theorem extend {expr expr' : Power → Parse Expr} (L : Likeness rules rules' R)
    (h : ∀ (rule : OperatorRule) p a b, Expr.Related R a b →
      Simulates R ds ds' (Expr.Related R) (rule.parse expr p a) (rule.parse expr' p b))
    (c : Power) (a b : Expr) (hab : Expr.Related R a b) :
    Simulates R ds ds' (Expr.Related R) (extend rules expr c a) (extend rules' expr' c b) := by
  intro s s' hs
  change Outcome R ds ds' _ (runExtend rules expr c a s) _
  have hop := L.operator hs.peek
  have hnil := hs.rest_eq_nil_iff
  fun_induction runExtend rules expr c a s generalizing b s' with
  | case1 a s hn =>
    rw [run_extend_nil (hnil.2 hn)]
    exact .ok hab hs
  | case2 a s hn hr =>
    rw [run_extend_none (hop ▸ hr)]
    exact .ok hab hs
  | case3 a s hn p rule hr hp wider t hw ih =>
    obtain ⟨wider', t', hw', hww, ht⟩ := (h rule p a b hab).ok hs.advance hw
    rw [run_extend_ok (mt hnil.1 hn) (hop ▸ hr) hp hw']
    exact ih _ hww _ ht (L.operator ht.peek) ht.rest_eq_nil_iff
  | case4 a s hn p rule hr hp e t hw =>
    obtain ⟨e', t', hw', he, ht⟩ := (h rule p a b hab).error hs.advance hw
    rw [run_extend_error (mt hnil.1 hn) (hop ▸ hr) hp hw']
    exact .error he ht
  | case5 a s hn p rule hr hp =>
    rw [run_extend_loose (hop ▸ hr) hp]
    exact .ok hab hs

variable (ds ds') in
theorem congruence (L : Likeness rules rules' R) :
    Congruence rules rules' R (fun ra p q => Simulates R ds ds' ra p q) where
  toLikeness := L
  pure := .pure
  bind := .bind
  current := current
  peek := peek
  advance := advance
  fail := fail
  items := items L
  inner := inner L
  extend := extend L

theorem statements {p q : Parse Stmt} (L : Likeness rules rules' R)
    (h : Simulates R ds ds' (Stmt.Related R) p q) (hs : State.Alike R ds ds' s s') :
    List.Forall₂ (Stmt.Related R) (statements p s).1 (statements q s').1 ∧
      State.Alike R ds ds' (statements p s).2 (statements q s').2 := by
  have hkind := L.kind hs.current
  fun_induction Parse.statements p s generalizing s' with
  | case1 s he =>
    rw [statements_eof (hkind ▸ he)]
    exact ⟨.nil, hs⟩
  | case2 s he a t ht as u hu ih =>
    obtain ⟨b, t', ht', hab, hat⟩ := h.ok hs ht
    obtain ⟨has, hau⟩ := ih hat.advance (L.kind hat.advance.current)
    rw [hu] at has hau
    rw [statements_ok (hkind ▸ he) ht']
    exact ⟨.cons hab has, hau⟩
  | case3 s he e t ht ih =>
    obtain ⟨e', t', ht', he', hat⟩ := h.error hs ht
    have hnext := (hat.recover L he').advance
    rw [statements_error (hkind ▸ he) ht']
    exact ih hnext (L.kind hnext.current)

end Simulates

end Parse

end FrontEnd
