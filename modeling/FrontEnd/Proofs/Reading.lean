import FrontEnd.Parse.Expression

namespace FrontEnd

namespace State

def on (s : State) (ts : List Token) : State := { s with rest := ts }

@[simp] theorem rest_on (s : State) (ts : List Token) : (s.on ts).rest = ts := rfl

@[simp] theorem diagnostics_on (s : State) (ts : List Token) :
    (s.on ts).diagnostics = s.diagnostics := rfl

@[simp] theorem advance_on (s : State) (ts : List Token) : (s.on ts).advance = s.on ts.tail := rfl

@[simp] theorem current_on_cons (s : State) (t : Token) (ts : List Token) :
    (s.on (t :: ts)).current = t := rfl

@[simp] theorem current_on_nil (s : State) : (s.on []).current = .eof s.ending := rfl

@[simp] theorem peek_on_cons (s : State) (t : Token) (ts : List Token) :
    (s.on (t :: ts)).peek = (s.on ts).current := rfl

def pastSemicolon (s : State) : State := if s.peek.kind = .semicolon then s.advance else s

theorem eq_cons_of_current {s : State} {ts : List Token} {k : TokenKind}
    (h : (s.on ts).current.kind = k) (hk : k ≠ .eof) : ∃ t us, ts = t :: us ∧ t.kind = k := by
  cases ts with
  | nil => exact absurd h hk.symm
  | cons t us => exact ⟨t, us, rfl, h⟩

theorem eq_cons_of_peek {s : State} {ts : List Token} {k : TokenKind}
    (h : (s.on ts).peek.kind = k) (hk : k ≠ .eof) :
    ∃ t u us, ts = t :: u :: us ∧ u.kind = k := by
  cases ts with
  | nil => exact absurd h hk.symm
  | cons t ts =>
    obtain ⟨u, us, rfl, hu⟩ := eq_cons_of_current h hk
    exact ⟨t, u, us, rfl, hu⟩

theorem Advances.diagnostics_eq {s t u : State} (h : s.Advances t) (k : t.Advances u)
    (hd : u.diagnostics = s.diagnostics) :
    t.diagnostics = s.diagnostics ∧ u.diagnostics = t.diagnostics := by
  have hst := h.diagnostics
  have htu := k.diagnostics
  rw [hd] at htu
  have he := htu.eq_of_length_le hst.length_le
  exact ⟨he, hd.trans he.symm⟩

theorem record_advances_recover (s : State) (e : SyntaxError) :
    (s.record e).Advances (s.recover e) := by
  unfold recover
  split
  · exact advances_advance _
  · exact .refl _

theorem record_advances_next (s : State) (e : SyntaxError) :
    (s.record e).Advances (s.recover e).advance :=
  (record_advances_recover s e).trans (advances_advance _)

theorem diagnostics_ne_of_record {s t u : State} (e : SyntaxError) (h : s.Advances t)
    (k : (t.record e).Advances u) : u.diagnostics ≠ s.diagnostics := by
  intro hd
  have hst := h.diagnostics.length_le
  have htu := k.diagnostics.length_le
  rw [hd] at htu
  simp only [record, List.length_append, List.length_singleton] at htu
  omega

end State

namespace Parse

variable {α β : Type}

/-- The parser answers, and records no error on its way. -/
def Yields (p : Parse α) (s : State) (a : α) (t : State) : Prop :=
  p.run s = (.ok a, t) ∧ t.diagnostics = s.diagnostics

theorem yields_bind {p : Parse α} {f : α → Parse β} {s t : State} {b : β} :
    (p >>= f).Yields s b t ↔ ∃ a u, p.Yields s a u ∧ (f a).Yields u b t := by
  constructor
  · rintro ⟨h, hd⟩
    rw [run_bind] at h
    cases hp : p.run s with
    | mk r u =>
      rw [hp] at h
      cases r with
      | error e => simp at h
      | ok a =>
        obtain ⟨hu, ht⟩ := (advances_of_run hp).diagnostics_eq (advances_of_run h) hd
        exact ⟨a, u, ⟨hp, hu⟩, h, ht⟩
  · rintro ⟨a, u, ⟨hp, hu⟩, h, ht⟩
    exact ⟨(run_bind_ok hp f).trans h, ht.trans hu⟩

@[simp] theorem yields_pure {a b : α} {s t : State} :
    (pure a : Parse α).Yields s b t ↔ b = a ∧ t = s := by
  constructor
  · rintro ⟨h, -⟩
    simp only [run_pure, Prod.mk.injEq, Except.ok.injEq] at h
    exact ⟨h.1.symm, h.2.symm⟩
  · rintro ⟨rfl, rfl⟩
    exact ⟨rfl, rfl⟩

@[simp] theorem yields_current {s t : State} {a : Token} :
    current.Yields s a t ↔ a = s.current ∧ t = s := by
  constructor
  · rintro ⟨h, -⟩
    simp only [run_current, Prod.mk.injEq, Except.ok.injEq] at h
    exact ⟨h.1.symm, h.2.symm⟩
  · rintro ⟨rfl, rfl⟩
    exact ⟨rfl, rfl⟩

@[simp] theorem yields_peek {s t : State} {a : Token} :
    peek.Yields s a t ↔ a = s.peek ∧ t = s := by
  constructor
  · rintro ⟨h, -⟩
    simp only [run_peek, Prod.mk.injEq, Except.ok.injEq] at h
    exact ⟨h.1.symm, h.2.symm⟩
  · rintro ⟨rfl, rfl⟩
    exact ⟨rfl, rfl⟩

@[simp] theorem yields_advance {s t : State} {a : Unit} :
    advance.Yields s a t ↔ t = s.advance := by
  constructor
  · rintro ⟨h, -⟩
    exact (Prod.mk.inj h).2.symm
  · rintro rfl
    exact ⟨rfl, rfl⟩

@[simp] theorem not_yields_fail {c : Cause} {p : Position} {s t : State} {a : α} :
    ¬ (fail c p : Parse α).Yields s a t := by
  rintro ⟨h, -⟩
  simp at h

@[simp] theorem yields_expectPeek {k : TokenKind} {s t : State} {a : Token} :
    (expectPeek k).Yields s a t ↔ s.peek.kind = k ∧ a = s.peek ∧ t = s.advance := by
  unfold Yields
  rw [run_expectPeek]
  split
  · next h =>
    simp only [Prod.mk.injEq, Except.ok.injEq, h, true_and]
    constructor
    · rintro ⟨⟨ha, ht⟩, -⟩
      exact ⟨ha.symm, ht.symm⟩
    · rintro ⟨rfl, rfl⟩
      exact ⟨⟨rfl, rfl⟩, rfl⟩
  · next h => simp [h]

@[simp] theorem yields_skipSemicolon {s t : State} {a : Unit} :
    skipSemicolon.Yields s a t ↔ t = s.pastSemicolon := by
  unfold Yields
  rw [run_skipSemicolon]
  constructor
  · rintro ⟨h, -⟩
    exact (Prod.mk.inj h).2.symm
  · rintro rfl
    refine ⟨rfl, ?_⟩
    unfold State.pastSemicolon
    split <;> rfl

@[simp] theorem not_yields_refuse {s t : State} {a : α} : ¬ (refuse : Parse α).Yields s a t := by
  unfold refuse
  rw [yields_bind]
  rintro ⟨token, u, -, h⟩
  split at h <;> exact not_yields_fail h

end Parse

end FrontEnd
