import FrontEnd.Proofs.Loops

namespace FrontEnd.Parse

variable {α β : Type} {s : State}

/-- A condition on the answer and the state behind it, and one on the error and the state it is
found in, whether or not errors are recorded on the way. -/
def Ensures (p : Parse α) (s : State) (Q : α → State → Prop) (E : SyntaxError → State → Prop) :
    Prop :=
  match p.run s with
  | (.ok a, t) => Q a t
  | (.error e, t) => E e t

variable {Q Q' : α → State → Prop} {E E' : SyntaxError → State → Prop}

theorem ensures_iff {p : Parse α} :
    p.Ensures s Q E ↔ (∀ a t, p.run s = (.ok a, t) → Q a t) ∧
      ∀ e t, p.run s = (.error e, t) → E e t := by
  unfold Ensures
  cases p.run s with
  | mk r t => cases r <;> simp

theorem ensures_of_run {p : Parse α}
    (h : ∀ r t, p.run s = (r, t) → match r with
      | .ok a => Q a t
      | .error e => E e t) : p.Ensures s Q E :=
  ensures_iff.2 ⟨fun _ _ hp => h _ _ hp, fun _ _ hp => h _ _ hp⟩

theorem Ensures.ok {p : Parse α} {a : α} {t : State} (h : p.Ensures s Q E)
    (hp : p.run s = (.ok a, t)) : Q a t :=
  (ensures_iff.1 h).1 a t hp

theorem Ensures.error {p : Parse α} {e : SyntaxError} {t : State} (h : p.Ensures s Q E)
    (hp : p.run s = (.error e, t)) : E e t :=
  (ensures_iff.1 h).2 e t hp

instance {p : Parse α} [∀ a t, Decidable (Q a t)] [∀ e t, Decidable (E e t)] :
    Decidable (p.Ensures s Q E) :=
  match h : p.run s with
  | (.ok a, t) => decidable_of_iff (Q a t) (by simp [Ensures, h])
  | (.error e, t) => decidable_of_iff (E e t) (by simp [Ensures, h])

theorem Ensures.exists_error {p : Parse α} (h : p.Ensures s (fun _ _ => False) E) :
    ∃ e t, p.run s = (.error e, t) ∧ E e t := by
  cases hp : p.run s with
  | mk r t =>
    cases r with
    | ok a => exact (h.ok hp).elim
    | error e => exact ⟨e, t, rfl, h.error hp⟩

theorem Ensures.mono {p : Parse α} (h : p.Ensures s Q E) (hq : ∀ a t, Q a t → Q' a t)
    (he : ∀ e t, E e t → E' e t) : p.Ensures s Q' E' :=
  ensures_iff.2 ⟨fun a t hp => hq a t (h.ok hp), fun e t hp => he e t (h.error hp)⟩

theorem Ensures.imp {p : Parse α} (h : p.Ensures s Q E) (hq : ∀ a t, Q a t → Q' a t) :
    p.Ensures s Q' E :=
  h.mono hq fun _ _ he => he

@[simp] theorem ensures_bind {p : Parse α} {f : α → Parse β} {Q : β → State → Prop} :
    (p >>= f).Ensures s Q E ↔ p.Ensures s (fun a t => (f a).Ensures t Q E) E := by
  unfold Ensures
  rw [run_bind]
  cases p.run s with
  | mk r t => cases r <;> rfl

@[simp] theorem ensures_pure {a : α} : (pure a : Parse α).Ensures s Q E ↔ Q a s := Iff.rfl

@[simp] theorem ensures_current {Q : Token → State → Prop} :
    current.Ensures s Q E ↔ Q s.current s := Iff.rfl

@[simp] theorem ensures_peek {Q : Token → State → Prop} : peek.Ensures s Q E ↔ Q s.peek s :=
  Iff.rfl

@[simp] theorem ensures_advance {Q : Unit → State → Prop} :
    advance.Ensures s Q E ↔ Q () s.advance := Iff.rfl

@[simp] theorem ensures_fail {c : Cause} {p : Position} :
    (fail c p : Parse α).Ensures s Q E ↔ E ⟨c, p⟩ s := Iff.rfl

@[simp] theorem ensures_skipSemicolon {Q : Unit → State → Prop} :
    skipSemicolon.Ensures s Q E ↔ Q () s.pastSemicolon := by
  unfold Ensures
  rw [run_skipSemicolon]
  rfl

def missing (k : TokenKind) (s : State) : SyntaxError :=
  ⟨.unexpected k s.peek.kind, s.peek.position⟩

@[simp] theorem ensures_expectPeek {k : TokenKind} {Q : Token → State → Prop} :
    (expectPeek k).Ensures s Q E ↔ (s.peek.kind = k → Q s.peek s.advance) ∧
      (s.peek.kind ≠ k → E (missing k s) s) := by
  unfold Ensures
  rw [run_expectPeek]
  by_cases h : s.peek.kind = k
  · simp [h]
  · simp [h, missing]

def refusal (s : State) : SyntaxError :=
  ⟨if s.current.kind = .illegal then .unrecognised s.current.text else .noOperand s.current.kind,
    s.current.position⟩

@[simp] theorem ensures_refuse : (refuse : Parse α).Ensures s Q E ↔ E (refusal s) s := by
  simp only [refuse, ensures_bind, ensures_current]
  by_cases h : s.current.kind = .illegal
  · simp [h, refusal]
  · simp [h, refusal]

@[simp] theorem current_advance (s : State) : s.advance.current = s.peek := rfl

theorem ensures_parenthesised {item : Parse α} {Q : List α → State → Prop} :
    (parenthesised item).Ensures s Q E ↔ (s.peek.kind = .closeParen → Q [] s.advance) ∧
      (s.peek.kind ≠ .closeParen → (items item).Ensures s (fun as t =>
        (t.peek.kind = .closeParen → Q as t.advance) ∧
          (t.peek.kind ≠ .closeParen → E (missing .closeParen t) t)) E) := by
  change (peek >>= fun token => if token.kind = .closeParen then (advance >>= fun _ => pure [])
    else items item >>= fun as => expectPeek .closeParen >>= fun _ => pure as).Ensures s Q E ↔ _
  simp only [ensures_bind, ensures_peek]
  by_cases h : s.peek.kind = .closeParen
  · simp [h]
  · simp [h]

theorem ensures_block {expr : Power → Parse Expr} {Q : Block → State → Prop} :
    (block expr).Ensures s Q E ↔
      (inner (statement expr)).Ensures s.advance (fun ss t => Q (.mk s.current ss) t) E := by
  change (current >>= fun token => advance >>= fun _ => inner (statement expr) >>= fun ss =>
    pure (.mk token ss)).Ensures s Q E ↔ _
  simp only [ensures_bind, ensures_current, ensures_advance, ensures_pure]

end FrontEnd.Parse
