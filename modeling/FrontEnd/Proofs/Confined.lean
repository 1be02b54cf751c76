import FrontEnd.Proofs.Binding
import FrontEnd.Proofs.Steps

namespace FrontEnd.Parse

open Grammar

variable {α β : Type} {semi t : Token} {ts us : List Token} {expr : Power → Parse Expr}

/-- Up to the semicolon the parser has one outcome, whatever stands behind it. The cursor is left on
one of these tokens or on the semicolon. -/
def Confined (semi : Token) (p : Parse α) (ts : List Token) (Q : α → List Token → Prop) : Prop :=
  ∃ r left, left <:+ ts ∧
    (∀ (s : State) bs, p.run (s.on (ts ++ semi :: bs)) = (r, s.on (left ++ semi :: bs))) ∧
      ∀ a, r = .ok a → Q a left

abbrev Stays (semi : Token) (p : Parse α) (ts : List Token) : Prop :=
  Confined semi p ts fun _ left => left ≠ []

/-- No block is opened among these tokens. -/
def Flat (ts : List Token) : Prop := ∀ t ∈ ts, t.kind ≠ .openCurly

theorem Flat.mono (h : Flat ts) (hu : us <:+ ts) : Flat us := fun t ht => h t (hu.subset ht)

variable {Q : α → List Token → Prop} {Q' : β → List Token → Prop}

theorem confined_pure {a : α} (h : Q a ts) : Confined semi (pure a) ts Q :=
  ⟨.ok a, ts, List.suffix_refl _, fun _ _ => rfl, fun _ hb => Except.ok.inj hb ▸ h⟩

theorem confined_fail (c : Cause) (p : Position) : Confined semi (fail c p) ts Q :=
  ⟨.error ⟨c, p⟩, ts, List.suffix_refl _, fun _ _ => rfl, fun _ h => nomatch h⟩

theorem Confined.bind {p : Parse α} {f : α → Parse β} (h : Confined semi p ts Q)
    (k : ∀ a left, left <:+ ts → Q a left → Confined semi (f a) left Q') :
    Confined semi (p >>= f) ts Q' := by
  obtain ⟨r, left, hleft, hrun, hq⟩ := h
  cases r with
  | error e => exact ⟨.error e, left, hleft, fun s bs => run_bind_error (hrun s bs) f, nofun⟩
  | ok a =>
    obtain ⟨r, left', hleft', hrun', hq'⟩ := k a left hleft (hq a rfl)
    exact ⟨r, left', hleft'.trans hleft,
      fun s bs => (run_bind_ok (hrun s bs) f).trans (hrun' s bs), hq'⟩

theorem Confined.mono {p : Parse α} (h : Confined semi p ts Q) {Q' : α → List Token → Prop}
    (hq : ∀ a left, Q a left → Q' a left) : Confined semi p ts Q' := by
  obtain ⟨r, left, hleft, hrun, h⟩ := h
  exact ⟨r, left, hleft, hrun, fun a ha => hq a left (h a ha)⟩

theorem Confined.congr {p q : Parse α} (h : Confined semi q ts Q)
    (hrun : ∀ (s : State) bs, p.run (s.on (ts ++ semi :: bs)) = q.run (s.on (ts ++ semi :: bs))) :
    Confined semi p ts Q := by
  obtain ⟨r, left, hleft, hr, hq⟩ := h
  exact ⟨r, left, hleft, fun s bs => (hrun s bs).trans (hr s bs), hq⟩

theorem confined_current :
    Confined semi current ts fun a left => a = ts.headD semi ∧ left = ts := by
  refine ⟨.ok (ts.headD semi), ts, List.suffix_refl _, fun s bs => ?_, ?_⟩
  · cases ts <;> rfl
  · rintro a ⟨⟩
    exact ⟨rfl, rfl⟩

theorem confined_peek : Confined semi peek (t :: us) fun a left =>
    a = us.headD semi ∧ left = t :: us := by
  refine ⟨.ok (us.headD semi), t :: us, List.suffix_refl _, fun s bs => ?_, ?_⟩
  · cases us <;> rfl
  · rintro a ⟨⟩
    exact ⟨rfl, rfl⟩

theorem confined_advance : Confined semi advance (t :: us) fun _ left => left = us :=
  ⟨.ok (), us, List.suffix_cons _ _, fun _ _ => rfl, fun _ _ => rfl⟩

theorem Confined.current_bind {f : Token → Parse β} (h : Confined semi (f (ts.headD semi)) ts Q') :
    Confined semi (Parse.current >>= f) ts Q' := by
  refine confined_current.bind ?_
  rintro _ _ - ⟨rfl, rfl⟩
  exact h

theorem Confined.peek_bind {f : Token → Parse β}
    (h : Confined semi (f (us.headD semi)) (t :: us) Q') :
    Confined semi (Parse.peek >>= f) (t :: us) Q' := by
  refine confined_peek.bind ?_
  rintro _ _ - ⟨rfl, rfl⟩
  exact h

theorem Confined.advance_bind {f : Unit → Parse β} (h : Confined semi (f ()) us Q') :
    Confined semi (Parse.advance >>= f) (t :: us) Q' := by
  refine confined_advance.bind ?_
  rintro _ _ - rfl
  exact h

theorem confined_refuse : Confined semi refuse ts Q := by
  refine .current_bind ?_
  split
  · exact confined_fail _ _
  · exact confined_fail _ _

theorem Confined.expectPeek_bind (hsemi : semi.kind = .semicolon) {k : TokenKind}
    (hk : k ≠ .semicolon) {f : Token → Parse β}
    (h : ∀ u vs, us = u :: vs → u.kind = k → Confined semi (f u) us Q') :
    Confined semi (expectPeek k >>= f) (t :: us) Q' := by
  have hp : Confined semi (expectPeek k) (t :: us) fun u left =>
      ∃ vs, us = u :: vs ∧ u.kind = k ∧ left = us := by
    refine .peek_bind ?_
    split
    · next hu =>
      refine .advance_bind (confined_pure ?_)
      cases us with
      | nil => exact absurd (hu.symm.trans hsemi) hk
      | cons u vs => exact ⟨vs, rfl, hu, rfl⟩
    · exact confined_fail _ _
  refine hp.bind ?_
  rintro u _ - ⟨vs, hus, hu, rfl⟩
  exact h u vs hus hu

theorem confined_skipSemicolon : Confined semi skipSemicolon (t :: us) fun _ _ => True := by
  refine .peek_bind ?_
  split
  · exact confined_advance.mono fun _ _ _ => trivial
  · exact confined_pure trivial

variable (hsemi : semi.kind = .semicolon)

include hsemi

theorem exists_cons_of_headD {k : TokenKind} (h : (us.headD semi).kind = k) (hk : k ≠ .semicolon) :
    ∃ u vs, us = u :: vs ∧ u.kind = k := by
  cases us with
  | nil => exact absurd (h.symm.trans hsemi) hk
  | cons u vs => exact ⟨u, vs, rfl, h⟩

theorem stays_items {item : Parse α} (h : ∀ t us, Flat (t :: us) → Stays semi item (t :: us))
    (hts : Flat (t :: us)) : Stays semi (items item) (t :: us) := by
  induction hl : us.length using Nat.strongRecOn generalizing t us with
  | ind l ih =>
    refine .congr ?_ fun s bs => run_items item _
    refine (h t us hts).bind fun a left hleft hne => ?_
    obtain ⟨last, rest, rfl⟩ := List.exists_cons_of_ne_nil hne
    refine .peek_bind ?_
    split
    · next hc =>
      obtain ⟨comma, rest, rfl, -⟩ := exists_cons_of_headD hsemi hc (by decide)
      have hlt : rest.length < l := by
        have hle := hleft.length_le
        simp only [List.length_cons] at hle
        omega
      refine .advance_bind ((ih rest.length hlt ?_ rfl).bind fun _ _ _ hne => confined_pure hne)
      exact hts.mono ((List.suffix_cons _ _).trans hleft)
    · exact confined_pure hne

theorem stays_parenthesised {item : Parse α}
    (h : ∀ t us, Flat (t :: us) → Stays semi item (t :: us)) (hts : Flat (t :: us)) :
    Stays semi (parenthesised item) (t :: us) := by
  refine .peek_bind ?_
  split
  · next hc =>
    obtain ⟨c, us, rfl, -⟩ := exists_cons_of_headD hsemi hc (by decide)
    exact .advance_bind (confined_pure (List.cons_ne_nil _ _))
  · refine (stays_items hsemi h hts).bind fun as left hleft hne => ?_
    obtain ⟨last, rest, rfl⟩ := List.exists_cons_of_ne_nil hne
    refine .expectPeek_bind hsemi (by decide) ?_
    rintro c vs rfl -
    exact confined_pure (List.cons_ne_nil _ _)

omit hsemi in
theorem stays_primary : Stays semi primary (t :: us) := by
  refine .current_bind ?_
  have hne : t :: us ≠ [] := List.cons_ne_nil _ _
  split
  · split
    · exact confined_pure hne
    · exact confined_fail _ _
  · exact confined_pure hne
  · exact confined_pure hne
  · exact confined_pure hne
  · exact confined_refuse

section

variable (h : ∀ c ts, Flat ts → Stays semi (expr c) ts)

include h

theorem stays_grouped (hts : Flat (t :: us)) : Stays semi (grouped expr) (t :: us) := by
  refine .advance_bind ((h .lowest us (hts.mono (List.suffix_cons _ _))).bind ?_)
  intro e left hleft hne
  obtain ⟨last, rest, rfl⟩ := List.exists_cons_of_ne_nil hne
  refine .expectPeek_bind hsemi (by decide) ?_
  rintro c vs rfl -
  exact confined_pure (List.cons_ne_nil _ _)

/-- The block that a condition needs is never found. -/
theorem stays_conditional (hts : Flat (t :: us)) : Stays semi (conditional expr) (t :: us) := by
  refine .current_bind (.expectPeek_bind hsemi (by decide) ?_)
  rintro o vs rfl -
  refine .advance_bind ((h .lowest vs (hts.mono ⟨[t, o], rfl⟩)).bind fun e left hleft hne => ?_)
  obtain ⟨last, rest, rfl⟩ := List.exists_cons_of_ne_nil hne
  refine .expectPeek_bind hsemi (by decide) ?_
  rintro c rest rfl -
  refine .expectPeek_bind hsemi (by decide) ?_
  rintro b rest rfl hb
  have hmem : b ∈ vs := hleft.subset (by simp)
  exact absurd hb (hts b (by simp [hmem]))

omit h in
theorem stays_function (hts : Flat (t :: us)) : Stays semi (function expr) (t :: us) := by
  refine .current_bind (.expectPeek_bind hsemi (by decide) ?_)
  rintro o vs rfl -
  have hps : ∀ t us, Flat (t :: us) → Stays semi parameter (t :: us) := by
    intro t us _
    refine .expectPeek_bind hsemi (by decide) ?_
    rintro name us rfl -
    exact confined_pure (List.cons_ne_nil _ _)
  refine (stays_parenthesised hsemi hps (hts.mono (List.suffix_cons _ _))).bind ?_
  intro is left hleft hne
  obtain ⟨last, rest, rfl⟩ := List.exists_cons_of_ne_nil hne
  refine .expectPeek_bind hsemi (by decide) ?_
  rintro b rest rfl hb
  exact absurd hb (hts b (List.mem_cons_of_mem _ (hleft.subset (by simp))))

theorem stays_operand (hts : Flat ts) : Stays semi (operand .standard expr) ts := by
  refine .current_bind ?_
  cases ts with
  | nil =>
    rw [List.headD_nil, hsemi]
    exact confined_refuse
  | cons t us =>
    rw [List.headD_cons]
    split
    · next rule hr =>
      obtain rfl | ⟨rfl, -⟩ | ⟨rfl, -⟩ | ⟨rfl, -⟩ | ⟨rfl, -⟩ := standard_operand hr
      · exact stays_primary
      · refine .current_bind (.advance_bind ?_)
        exact (h .unary us (hts.mono (List.suffix_cons _ _))).bind fun _ _ _ hne =>
          confined_pure hne
      · exact stays_grouped hsemi h hts
      · exact stays_conditional hsemi h hts
      · exact stays_function hsemi hts
    · exact confined_refuse

theorem stays_operator {p : Power} {rule : OperatorRule}
    (hr : Rules.standard.operator t.kind = some (p, rule)) (left : Expr) (hts : Flat (t :: us)) :
    Stays semi (rule.parse expr p left) (t :: us) := by
  obtain ⟨rfl, -⟩ | ⟨rfl, -, -⟩ := standard_operator hr
  · refine .current_bind (.advance_bind ?_)
    exact (h p us (hts.mono (List.suffix_cons _ _))).bind fun _ _ _ hne => confined_pure hne
  · refine .current_bind ((stays_parenthesised hsemi ?_ hts).bind fun _ _ _ hne =>
      confined_pure hne)
    intro t us hts
    exact .advance_bind (h .lowest us (hts.mono (List.suffix_cons _ _)))

theorem stays_extend (c : Power) (e : Expr) (hts : Flat (t :: us)) :
    Stays semi (extend .standard expr c e) (t :: us) := by
  induction hl : us.length using Nat.strongRecOn generalizing t us e with
  | ind l ih =>
    have hpeek : ∀ (s : State) bs, (s.on (t :: us ++ semi :: bs)).peek = us.headD semi := by
      intro s bs
      cases us <;> rfl
    have hstop : Stays semi (pure e : Parse Expr) (t :: us) := confined_pure (List.cons_ne_nil _ _)
    cases hr : Rules.standard.operator (us.headD semi).kind with
    | none => exact hstop.congr fun s bs => run_extend_none (by rw [hpeek, hr]) e
    | some r =>
      obtain ⟨p, rule⟩ := r
      by_cases hp : c < p
      · refine .congr ?_ fun s bs =>
          run_extend_step (List.cons_ne_nil _ _) (by rw [hpeek, hr]) hp e
        cases us with
        | nil =>
          rw [List.headD_nil, hsemi] at hr
          cases hr
        | cons op us =>
          have hus := hts.mono (List.suffix_cons _ _)
          refine .advance_bind ((stays_operator hsemi h hr e hus).bind ?_)
          intro wider left hleft hne
          obtain ⟨last, rest, rfl⟩ := List.exists_cons_of_ne_nil hne
          have hle := hleft.length_le
          simp only [List.length_cons] at hle hl
          exact ih rest.length (by omega) wider (hus.mono hleft) rfl
      · exact hstop.congr fun s bs => run_extend_loose (by rw [hpeek, hr]) hp e

end

theorem stays_expression (levels : Nat) (c : Power) (hts : Flat ts) :
    Stays semi (expression .standard levels c) ts := by
  induction levels generalizing c ts with
  | zero => exact .current_bind (confined_fail _ _)
  | succ levels ih =>
    have h : ∀ c ts, Flat ts → Stays semi (expression .standard levels c) ts := fun c ts => ih c
    refine (stays_operand hsemi h hts).bind fun e left hleft hne => ?_
    obtain ⟨last, rest, rfl⟩ := List.exists_cons_of_ne_nil hne
    exact stays_extend hsemi h c e (hts.mono hleft)

theorem confined_statement (levels : Nat) (hts : Flat ts) :
    Confined semi (statement (expression .standard levels)) ts fun _ _ => True := by
  have h {us : List Token} (hus : us <:+ ts) := stays_expression hsemi levels .lowest (hts.mono hus)
  have skip {us : List Token} (hne : us ≠ []) (a : Stmt) :
      Confined semi (skipSemicolon >>= fun _ => pure a) us fun _ _ => True := by
    obtain ⟨last, rest, rfl⟩ := List.exists_cons_of_ne_nil hne
    exact confined_skipSemicolon.bind fun _ _ _ _ => confined_pure trivial
  refine .current_bind ?_
  split
  · next hk =>
    obtain ⟨word, us, rfl, -⟩ := exists_cons_of_headD hsemi hk (by decide)
    refine .current_bind (.expectPeek_bind hsemi (by decide) ?_)
    rintro name us rfl -
    refine .expectPeek_bind hsemi (by decide) ?_
    rintro eq us rfl -
    exact .advance_bind ((h ⟨[word, name, eq], rfl⟩).bind fun _ _ _ hne => skip hne _)
  · next hk =>
    obtain ⟨word, us, rfl, -⟩ := exists_cons_of_headD hsemi hk (by decide)
    exact .current_bind (.advance_bind ((h ⟨[word], rfl⟩).bind fun _ _ _ hne => skip hne _))
  · exact .current_bind ((h (List.suffix_refl _)).bind fun _ _ _ hne => skip hne _)

end FrontEnd.Parse
