import FrontEnd.Proofs.Loops

namespace FrontEnd.Parse

variable {α β : Type}

theorem exists_of_run_bind {p : Parse α} {f : α → Parse β} {s u : State} {b : β}
    (h : (p >>= f).run s = (.ok b, u)) :
    ∃ a t, p.run s = (.ok a, t) ∧ (f a).run t = (.ok b, u) := by
  cases hp : p.run s with
  | mk r t =>
    cases r with
    | ok a =>
      rw [run_bind_ok hp] at h
      exact ⟨a, t, rfl, h⟩
    | error e =>
      rw [run_bind_error hp] at h
      cases h

/-- Every answer has the property, wherever reading starts. -/
def Gives (p : Parse α) (ok : α → Prop) : Prop := ∀ s a t, p.run s = (.ok a, t) → ok a

variable {p : Parse α} {f : α → Parse β} {ok : α → Prop} {ok' : β → Prop}

theorem gives_pure {a : α} (h : ok a) : (pure a : Parse α).Gives ok := by
  rintro s _ t ⟨⟩
  exact h

theorem gives_fail (c : Cause) (pos : Position) : (fail c pos : Parse α).Gives ok := nofun

theorem Gives.bind (h : p.Gives ok) (k : ∀ a, ok a → (f a).Gives ok') : (p >>= f).Gives ok' := by
  intro s b u hb
  obtain ⟨a, t, hp, hf⟩ := exists_of_run_bind hb
  exact k a (h s a t hp) t b u hf

theorem gives_after (k : ∀ a, (f a).Gives ok') : (p >>= f).Gives ok' := by
  have hany : p.Gives fun _ => True := fun _ _ _ _ => trivial
  exact hany.bind fun a _ => k a

theorem gives_refuse : (refuse : Parse α).Gives ok := by
  refine gives_after fun token => ?_
  split
  · exact gives_fail _ _
  · exact gives_fail _ _

theorem items_give (h : p.Gives ok) : (items p).Gives (∀ a ∈ ·, ok a) := by
  intro s as u hrun
  change runItems p s = _ at hrun
  fun_induction runItems p s generalizing as u with
  | case1 s e t ht => cases hrun
  | case2 s a t ht hc e v hv ih => cases hrun
  | case3 s a t ht hc bs v hv ih =>
    cases hrun
    exact List.forall_mem_cons.2 ⟨h s a t ht, ih _ _ hv⟩
  | case4 s a t ht hc =>
    cases hrun
    simpa using h s a t ht

theorem parenthesised_gives (h : p.Gives ok) : (parenthesised p).Gives (∀ a ∈ ·, ok a) := by
  refine gives_after fun token => ?_
  split
  · exact gives_after fun _ => gives_pure (by simp)
  · exact (items_give h).bind fun as has => gives_after fun _ => gives_pure has

theorem inner_gives {stmt : Parse Stmt} {ok : Stmt → Prop} (h : stmt.Gives ok) :
    (inner stmt).Gives (∀ a ∈ ·, ok a) := by
  intro s as u hrun
  change runInner stmt s = _ at hrun
  fun_induction runInner stmt s generalizing as u with
  | case1 s hc =>
    cases hrun
    simp
  | case2 s hc he => cases hrun
  | case3 s hc he a t ht bs v hv ih =>
    cases hrun
    exact List.forall_mem_cons.2 ⟨h s a t ht, ih _ _ hv⟩
  | case4 s hc he a t ht e v hv ih => cases hrun
  | case5 s hc he e t ht hk =>
    cases hrun
    simp
  | case6 s hc he e t ht hk ih => exact ih _ _ hrun

theorem statements_give {stmt : Parse Stmt} {ok : Stmt → Prop} (h : stmt.Gives ok) (s : State) :
    ∀ a ∈ (statements stmt s).1, ok a := by
  fun_induction statements stmt s with
  | case1 s he => simp
  | case2 s he a t ht as u hu ih =>
    rw [hu] at ih
    exact List.forall_mem_cons.2 ⟨h s a t ht, ih⟩
  | case3 s he e t ht ih => exact ih

theorem extend_gives {rules : Rules} {expr : Power → Parse Expr} {ok : Expr → Prop}
    (h : ∀ (rule : OperatorRule) p a, ok a → (rule.parse expr p a).Gives ok) (c : Power) {a : Expr}
    (ha : ok a) : (extend rules expr c a).Gives ok := by
  intro s b u hrun
  change runExtend rules expr c a s = _ at hrun
  fun_induction runExtend rules expr c a s with
  | case1 a s hn =>
    cases hrun
    exact ha
  | case2 a s hn hr =>
    cases hrun
    exact ha
  | case3 a s hn p rule hr hp wider t ht ih => exact ih (h rule p a ha _ wider t ht) hrun
  | case4 a s hn p rule hr hp e t ht => cases hrun
  | case5 a s hn p rule hr hp =>
    cases hrun
    exact ha

end FrontEnd.Parse
