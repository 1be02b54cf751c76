import FrontEnd.Proofs.Steps

namespace FrontEnd.Parse

variable {α β : Type} {s t : State} {e : SyntaxError}

def log (p : Parse α) (s : State) : List SyntaxError :=
  match p.run s with
  | (.ok _, t) => t.diagnostics
  | (.error e, t) => t.diagnostics ++ [e]

/-- The first error found from here. -/
def Errs (p : Parse α) (s : State) (e : SyntaxError) : Prop := s.diagnostics ++ [e] <+: p.log s

theorem log_of_ok {p : Parse α} {a : α} (h : p.run s = (.ok a, t)) : p.log s = t.diagnostics := by
  rw [log, h]

theorem log_of_error {p : Parse α} (h : p.run s = (.error e, t)) :
    p.log s = t.diagnostics ++ [e] := by
  rw [log, h]

theorem diagnostics_prefix_log (p : Parse α) (s : State) : (p.run s).2.diagnostics <+: p.log s := by
  unfold log
  split
  · next h => simp [h]
  · next h => simp [h]

theorem errs_congr {p : Parse α} {q : Parse β} (hlog : p.log s = q.log t)
    (hs : s.diagnostics = t.diagnostics) : p.Errs s e ↔ q.Errs t e := by
  rw [Errs, Errs, hlog, hs]

theorem Yields.not_errs {p : Parse α} {a : α} (h : p.Yields s a t) : ¬ p.Errs s e := by
  intro he
  have hle := he.length_le
  rw [log_of_ok h.1, h.2, List.length_append, List.length_singleton] at hle
  omega

theorem errs_iff_of_prefix {ds es fs : List SyntaxError} (hes : es <+: fs)
    (hlt : ds.length < es.length) : ds ++ [e] <+: fs ↔ ds ++ [e] <+: es := by
  constructor
  · intro h
    refine List.prefix_of_prefix_length_le h hes ?_
    rw [List.length_append, List.length_singleton]
    exact hlt
  · exact fun h => h.trans hes

theorem errs_bind {p : Parse α} {f : α → Parse β} :
    (p >>= f).Errs s e ↔ p.Errs s e ∨ ∃ a t, p.Yields s a t ∧ (f a).Errs t e := by
  cases hp : p.run s with
  | mk r t =>
    cases r with
    | error e' =>
      have hnot : ∀ a u, ¬ p.Yields s a u := fun a u h => by cases hp.symm.trans h.1
      have hlog : (p >>= f).log s = p.log s :=
        (log_of_error (run_bind_error hp f)).trans (log_of_error hp).symm
      rw [errs_congr hlog rfl]
      simp [hnot]
    | ok a =>
      have hlog : (p >>= f).log s = (f a).log t := by rw [log, log, run_bind_ok hp]
      have hst := (advances_of_run hp).diagnostics
      have htu : t.diagnostics <+: (f a).log t :=
        ((f a).forward t).diagnostics.trans (diagnostics_prefix_log _ _)
      by_cases hd : t.diagnostics = s.diagnostics
      · have hy : p.Yields s a t := ⟨hp, hd⟩
        rw [errs_congr hlog hd.symm]
        constructor
        · exact fun h => .inr ⟨a, t, hy, h⟩
        · rintro (h | ⟨b, u, hb, h⟩)
          · exact absurd h hy.not_errs
          · cases hp.symm.trans hb.1
            exact h
      · have hlt : s.diagnostics.length < t.diagnostics.length :=
          Nat.lt_of_le_of_ne hst.length_le fun h => hd (hst.eq_of_length h).symm
        have hnot : ∀ b u, ¬ p.Yields s b u := by
          rintro b u ⟨hb, hu⟩
          cases hp.symm.trans hb
          exact hd hu
        rw [Errs, Errs, hlog, log_of_ok hp, errs_iff_of_prefix htu hlt]
        simp [hnot]

@[simp] theorem not_errs_pure {a : α} : ¬ (pure a : Parse α).Errs s e :=
  (yields_pure.2 ⟨rfl, rfl⟩).not_errs

@[simp] theorem not_errs_advance : ¬ advance.Errs s e :=
  (yields_advance (a := ()).2 rfl).not_errs

@[simp] theorem errs_fail {c : Cause} {p : Position} :
    (fail c p : Parse α).Errs s e ↔ e = ⟨c, p⟩ := by
  rw [Errs, log_of_error (run_fail c p s), List.prefix_append_right_inj]
  simp

@[simp] theorem errs_current {f : Token → Parse β} :
    (current >>= f).Errs s e ↔ (f s.current).Errs s e := Iff.rfl

@[simp] theorem errs_peek {f : Token → Parse β} :
    (peek >>= f).Errs s e ↔ (f s.peek).Errs s e := Iff.rfl

@[simp] theorem errs_advance {f : Unit → Parse β} :
    (advance >>= f).Errs s e ↔ (f ()).Errs s.advance e := Iff.rfl

theorem errs_expectPeek {k : TokenKind} {f : Token → Parse β} :
    (expectPeek k >>= f).Errs s e ↔
      s.peek.kind ≠ k ∧ e = ⟨.unexpected k s.peek.kind, s.peek.position⟩ ∨
        s.peek.kind = k ∧ (f s.peek).Errs s.advance e := by
  have hp : (expectPeek k).Errs s e ↔
      s.peek.kind ≠ k ∧ e = ⟨.unexpected k s.peek.kind, s.peek.position⟩ := by
    rw [expectPeek, errs_peek]
    by_cases hk : s.peek.kind = k
    · simp [hk]
    · simp [hk]
  rw [errs_bind, hp]
  simp [and_assoc]

/-- Up to the first error one parser does from here what the other does from there. -/
structure Agrees (p : Parse α) (s : State) (q : Parse α) (t : State) : Prop where
  yields {a : α} {u : State} : p.Yields s a u ↔ q.Yields t a u
  errs {e : SyntaxError} : p.Errs s e ↔ q.Errs t e

theorem agrees_of_run {p q : Parse α} (h : p.run s = q.run t) (hd : s.diagnostics = t.diagnostics) :
    Agrees p s q t where
  yields := by unfold Yields; rw [h, hd]
  errs := errs_congr (by rw [log, log, h]) hd

/-- A parser that records an error and goes on agrees with one that fails with it. -/
theorem agrees_of_recovery {p q : Parse α} (hq : q.run s = (.error e, t))
    (hp : (t.record e).Advances (p.run s).2) : Agrees p s q s where
  yields {a u} := by
    refine iff_of_false (fun hy => ?_) fun hy => by cases hq.symm.trans hy.1
    have hne := State.diagnostics_ne_of_record e (advances_of_run hq) hp
    rw [hy.1] at hne
    exact hne hy.2
  errs {e'} := by
    have hle := (advances_of_run hq).diagnostics.length_le
    have hpre : t.diagnostics ++ [e] <+: p.log s :=
      hp.diagnostics.trans (diagnostics_prefix_log p s)
    rw [Errs, Errs, log_of_error hq, errs_iff_of_prefix hpre]
    rw [List.length_append, List.length_singleton]
    omega

def round (stmt : Parse Stmt) (closer : TokenKind) (loop : Parse (List Stmt)) :
    Parse (List Stmt) := do
  let token ← current
  if token.kind = closer then return []
  else if token.kind = .eof then fail (.unexpected closer .eof) token.position
  else
    let first ← stmt
    advance
    let rest ← loop
    return first :: rest

theorem errs_round {stmt : Parse Stmt} {closer : TokenKind} {loop : Parse (List Stmt)} :
    (round stmt closer loop).Errs s e ↔ s.current.kind ≠ closer ∧
      (s.current.kind = .eof ∧ e = ⟨.unexpected closer .eof, s.current.position⟩ ∨
        s.current.kind ≠ .eof ∧ (stmt.Errs s e ∨ ∃ a t, stmt.Yields s a t ∧
          loop.Errs t.advance e)) := by
  rw [round, errs_current]
  by_cases hc : s.current.kind = closer
  · simp [hc]
  · by_cases he : s.current.kind = .eof
    · rw [if_neg hc, if_pos he, errs_fail]
      simp only [he] at hc ⊢
      simp [hc]
    · rw [if_neg hc, if_neg he, errs_bind]
      simp [hc, he, errs_bind]

theorem agrees_round {stmt : Parse Stmt} {closer : TokenKind} {loop : Parse (List Stmt)}
    (hclose : ∀ s, s.current.kind = closer → loop.run s = (.ok [], s))
    (heof : ∀ s, s.current.kind ≠ closer → s.current.kind = .eof →
      loop.run s = (.error ⟨.unexpected closer .eof, s.current.position⟩, s))
    (hok : ∀ s a t, s.current.kind ≠ closer → s.current.kind ≠ .eof → stmt.run s = (.ok a, t) →
      loop.run s = (loop >>= fun as => pure (a :: as)).run t.advance)
    (herror : ∀ s e t, s.current.kind ≠ closer → s.current.kind ≠ .eof →
      stmt.run s = (.error e, t) → (t.record e).Advances (loop.run s).2) :
    Agrees loop s (round stmt closer loop) s := by
  by_cases hc : s.current.kind = closer
  · refine agrees_of_run ?_ rfl
    rw [hclose s hc, round, run_bind, run_current]
    simp only [if_pos hc, run_pure]
  · by_cases he : s.current.kind = .eof
    · refine agrees_of_run ?_ rfl
      rw [heof s hc he, round, run_bind, run_current]
      simp only [if_neg hc, if_pos he, run_fail]
    · have hround : (round stmt closer loop).run s =
          (stmt >>= fun a => advance >>= fun _ => loop >>= fun as => pure (a :: as)).run s := by
        rw [round, run_bind, run_current]
        simp only [if_neg hc, if_neg he]
      cases hs : stmt.run s with
      | mk r t =>
        cases r with
        | ok a =>
          refine agrees_of_run ?_ rfl
          rw [hok s a t hc he hs, hround, run_bind_ok hs]
          rfl
        | error e =>
          exact agrees_of_recovery (hround.trans (run_bind_error hs _)) (herror s e t hc he hs)

theorem inner_agrees (stmt : Parse Stmt) (s : State) :
    Agrees (inner stmt) s (round stmt .closeCurly (inner stmt)) s := by
  refine agrees_round (fun _ => run_inner_close) (fun _ _ => run_inner_eof)
    (fun _ _ _ hc he => run_inner_ok hc he) fun s e t hc he hs => ?_
  by_cases ht : t.current.kind = .closeCurly
  · rw [run_inner_stop hc he hs ht]
    exact .refl _
  · rw [run_inner_recover hc he hs ht]
    exact (State.record_advances_next t e).trans ((inner stmt).forward _)

theorem program_agrees (stmt : Parse Stmt) (s : State) :
    Agrees (program stmt) s (round stmt .eof (program stmt)) s := by
  refine agrees_round (fun s hc => ?_) (fun s hc he => absurd he hc) (fun s a t _ he hs => ?_)
    fun s e t _ he hs => ?_
  · rw [run_program, statements_eof hc]
  · rw [run_program, statements_ok he hs]
    rfl
  · change (t.record e).Advances (statements stmt s).2
    rw [statements_error he hs]
    exact (State.record_advances_next t e).trans (advances_statements stmt _)

end FrontEnd.Parse
