import FrontEnd.Proofs.Ensures
import FrontEnd.Tree.Count

namespace FrontEnd

/-- The tokens read on the way to the second state pay for the errors recorded on that way and for
so many statements. -/
structure Covers (s t : State) (cost : Nat) : Prop where
  rest : t.rest.length ≤ s.rest.length
  paid : t.diagnostics.length + cost ≤ s.diagnostics.length + (s.rest.length - t.rest.length)

/-- The same with one token to spare, unless none was read and nothing is to be paid. -/
structure Spares (s t : State) (cost : Nat) : Prop where
  rest : t.rest.length ≤ s.rest.length
  paid : t.diagnostics.length + cost ≤ s.diagnostics.length + (s.rest.length - t.rest.length - 1)

namespace Covers

variable {s t u : State} {j k : Nat}

theorem refl (s : State) : Covers s s 0 := ⟨Nat.le_refl _, Nat.le_add_right _ _⟩

theorem trans (h : Covers s t j) (h' : Covers t u k) : Covers s u (j + k) where
  rest := Nat.le_trans h'.rest h.rest
  paid := by
    obtain ⟨hrest, hpaid⟩ := h
    obtain ⟨hrest', hpaid'⟩ := h'
    omega

theorem drop (h : Covers s t k) : Covers s t 0 :=
  ⟨h.rest, Nat.le_trans (Nat.add_le_add_left (Nat.zero_le k) _) h.paid⟩

end Covers

namespace Spares

variable {s t u : State} {j k : Nat} {e : SyntaxError}

theorem refl (s : State) : Spares s s 0 := ⟨Nat.le_refl _, Nat.le_add_right _ _⟩

theorem trans (h : Spares s t j) (h' : Spares t u k) : Spares s u (j + k) where
  rest := Nat.le_trans h'.rest h.rest
  paid := by
    obtain ⟨hrest, hpaid⟩ := h
    obtain ⟨hrest', hpaid'⟩ := h'
    omega

theorem drop (h : Spares s t k) : Spares s t 0 :=
  ⟨h.rest, Nat.le_trans (Nat.add_le_add_left (Nat.zero_le k) _) h.paid⟩

theorem advance (h : Spares s t k) : Spares s t.advance k where
  rest := by
    have := h.rest
    simp only [State.advance, List.length_tail]
    omega
  paid := by
    have := h.paid
    simp only [State.advance, List.length_tail]
    omega

theorem pastSemicolon (h : Spares s t k) : Spares s t.pastSemicolon k := by
  unfold State.pastSemicolon
  split
  · exact h.advance
  · exact h

theorem of_covers (hs : s.rest ≠ []) (h : Covers s.advance t k) : Spares s t k where
  rest := by
    have := h.rest
    simp only [State.advance, List.length_tail] at this
    omega
  paid := by
    have hpos := List.length_pos_iff.2 hs
    have hrest := h.rest
    have hpaid := h.paid
    simp only [State.advance, List.length_tail] at hrest hpaid
    omega

/-- The token to spare pays for the statement itself. Where no token was read, stepping behind the
statement reads one. -/
theorem covers_advance (hs : s.rest ≠ []) (h : Spares s t k) : Covers s t.advance (k + 1) where
  rest := h.advance.rest
  paid := by
    have hpos := List.length_pos_iff.2 hs
    have := h.rest
    have := h.paid
    simp only [State.advance, List.length_tail]
    omega

theorem covers_recover (hs : s.rest ≠ []) (h : Spares s t k) :
    Covers s (t.recover e).advance 0 := by
  have hpos := List.length_pos_iff.2 hs
  have hrest := h.rest
  have hpaid := h.paid
  have herror : (t.recover e).advance.diagnostics.length = t.diagnostics.length + 1 := by
    unfold State.recover
    split <;> simp [State.advance, State.record]
  have hread : (t.recover e).advance.rest.length ≤ t.rest.length - 1 := by
    unfold State.recover
    split <;> simp [State.advance, State.record]
  constructor <;> omega

/-- The cursor has left the first token of the statement, so that one token is to spare. -/
theorem covers_record (hlt : t.rest.length < s.rest.length) (h : Spares s t k) :
    Covers s (t.record e) 0 where
  rest := h.rest
  paid := by
    have := h.paid
    simp only [State.record, List.length_append, List.length_singleton]
    omega

end Spares

namespace Parse

variable {α : Type} {expr : Power → Parse Expr} {rules : Rules} {s s₀ : State} {k : Nat}

/-- The tokens that are read pay for the answer and spare one, and the cursor is left on a token. -/
def Frugal (p : Parse α) (cost : α → Nat) (s : State) : Prop :=
  p.Ensures s (fun a t => Spares s t (cost a) ∧ t.rest ≠ []) fun _ t => Spares s t 0

theorem Frugal.after {p : Parse α} {cost : α → Nat} (h : p.Frugal cost s) (hs : Spares s₀ s k) :
    p.Ensures s (fun a t => Spares s₀ t (k + cost a) ∧ t.rest ≠ []) fun _ t => Spares s₀ t 0 :=
  h.mono (fun _ _ ha => ⟨hs.trans ha.1, ha.2⟩) fun _ _ he => (hs.trans he).drop

theorem rest_ne_nil_of_kind {k : TokenKind} (h : s.current.kind = k) (hk : k ≠ .eof) :
    s.rest ≠ [] :=
  State.rest_ne_nil_of_current (h ▸ hk)

theorem primary_frugal : primary.Frugal Expr.statementCount s := by
  simp only [Frugal, primary, ensures_bind, ensures_current]
  have hs : Spares s s 0 := .refl s
  split
  · next hk =>
    split
    · exact ⟨hs, rest_ne_nil_of_kind hk (by decide)⟩
    · exact hs
  · next hk => exact ⟨hs, rest_ne_nil_of_kind hk (by decide)⟩
  · next hk => exact ⟨hs, rest_ne_nil_of_kind hk (by decide)⟩
  · next hk => exact ⟨hs, rest_ne_nil_of_kind hk (by decide)⟩
  · exact ensures_refuse.2 hs

def total (cost : α → Nat) (as : List α) : Nat := as.foldr (fun a n => cost a + n) 0

theorem items_frugal {item : Parse α} {cost : α → Nat} (h : ∀ s, item.Frugal cost s) :
    (items item).Frugal (total cost) s := by
  refine ensures_of_run fun r t ht => ?_
  change runItems item s = _ at ht
  fun_induction runItems item s generalizing r t with
  | case1 s e u hu =>
    cases ht
    exact (h s).error hu
  | case2 s a u hu hc e v hv ih =>
    cases ht
    exact ((((h s).ok hu).1.advance).trans (ih _ _ hv)).drop
  | case3 s a u hu hc as v hv ih =>
    cases ht
    obtain ⟨hpaid, hrest⟩ := ih _ _ hv
    exact ⟨((h s).ok hu).1.advance.trans hpaid, hrest⟩
  | case4 s a u hu hc =>
    cases ht
    exact (h s).ok hu

theorem parenthesised_frugal {item : Parse α} {cost : α → Nat} (h : ∀ s, item.Frugal cost s) :
    (parenthesised item).Frugal (total cost) s := by
  refine ensures_parenthesised.2 ⟨fun hc => ?_, fun _ => ?_⟩
  · exact ⟨(Spares.refl s).advance, rest_ne_nil_of_kind (s := s.advance) hc (by decide)⟩
  · refine (items_frugal h).imp fun as t ha => ⟨fun hc => ?_, fun _ => ha.1.drop⟩
    exact ⟨ha.1.advance, rest_ne_nil_of_kind (s := t.advance) hc (by decide)⟩

theorem length_lt_of_current {t : State} (h : s.Advances t) (hne : t.current ≠ s.current) :
    t.rest.length < s.rest.length := by
  refine Nat.lt_of_le_of_ne h.length_le fun hlen => hne ?_
  simp only [State.current, h.rest.eq_of_length hlen, h.ending]

/-- Each statement of a block is paid for, and the error of each that is given up. When a statement
fails at the closing brace, the cursor has moved to that brace. -/
theorem inner_covers {stmt : Parse Stmt} (h : ∀ s, stmt.Frugal Stmt.innerCount s) :
    (inner stmt).Ensures s (fun ss t => Covers s t (Stmt.statementCountList ss) ∧ t.rest ≠ [])
      fun _ t => Covers s t 0 := by
  refine ensures_of_run fun r t ht => ?_
  change runInner stmt s = _ at ht
  fun_induction runInner stmt s generalizing r t with
  | case1 s hc =>
    cases ht
    exact ⟨.refl s, rest_ne_nil_of_kind hc (by decide)⟩
  | case2 s hc he =>
    cases ht
    exact .refl s
  | case3 s hc he a u hu as v hv ih =>
    cases ht
    obtain ⟨hpaid, hrest⟩ := ih _ _ hv
    have hs := State.rest_ne_nil_of_current he
    exact ⟨(((h s).ok hu).1.covers_advance hs).trans hpaid, hrest⟩
  | case4 s hc he a u hu e v hv ih =>
    cases ht
    have hs := State.rest_ne_nil_of_current he
    exact ((((h s).ok hu).1.covers_advance hs).trans (ih _ _ hv)).drop
  | case5 s hc he e u hu hk =>
    cases ht
    have hne : u.current ≠ s.current := fun heq => hc (heq ▸ hk)
    have hlt := length_lt_of_current (advances_of_run hu) hne
    exact ⟨((h s).error hu).covers_record hlt, rest_ne_nil_of_kind hk (by decide)⟩
  | case6 s hc he e u hu hk ih =>
    have hs := State.rest_ne_nil_of_current he
    have hu' := ((h s).error hu).covers_recover (e := e) hs
    specialize ih r t ht
    cases r with
    | ok ss => exact ⟨by simpa using hu'.trans ih.1, ih.2⟩
    | error e' => exact hu'.trans ih

theorem block_frugal (h : ∀ s, (statement expr).Frugal Stmt.innerCount s) (hs : s.rest ≠ []) :
    (block expr).Frugal Block.statementCount s := by
  refine ensures_block.2 ((inner_covers h).mono (fun ss t ha => ?_) fun e t he => ?_)
  · exact ⟨.of_covers hs ha.1, ha.2⟩
  · exact .of_covers hs he

theorem pastSemicolon_rest_ne_nil (hs : s.rest ≠ []) : s.pastSemicolon.rest ≠ [] := by
  unfold State.pastSemicolon
  split
  · next hk => exact rest_ne_nil_of_kind (s := s.advance) hk (by decide)
  · exact hs

theorem statement_frugal (h : ∀ s, (expr .lowest).Frugal Expr.statementCount s) :
    (statement expr).Frugal Stmt.innerCount s := by
  simp only [Frugal, statement, ensures_bind, ensures_current]
  have hs : Spares s s 0 := .refl s
  split
  · simp only [letStatement, ensures_bind, ensures_current, ensures_expectPeek, ensures_advance,
      ensures_skipSemicolon, ensures_pure]
    refine ⟨fun _ => ⟨fun _ => ?_, fun _ => hs.advance⟩, fun _ => hs⟩
    exact ((h _).after hs.advance.advance.advance).imp fun e u ha =>
      ⟨by simpa [Stmt.innerCount] using ha.1.pastSemicolon, pastSemicolon_rest_ne_nil ha.2⟩
  · simp only [returnStatement, ensures_bind, ensures_current, ensures_advance,
      ensures_skipSemicolon, ensures_pure]
    exact ((h _).after hs.advance).imp fun e u ha =>
      ⟨by simpa [Stmt.innerCount] using ha.1.pastSemicolon, pastSemicolon_rest_ne_nil ha.2⟩
  · simp only [expressionStatement, ensures_bind, ensures_current, ensures_skipSemicolon,
      ensures_pure]
    exact (h s).imp fun e u ha => ⟨ha.1.pastSemicolon, pastSemicolon_rest_ne_nil ha.2⟩

theorem prefixed_frugal (h : ∀ c s, (expr c).Frugal Expr.statementCount s) :
    (prefixed expr).Frugal Expr.statementCount s := by
  simp only [Frugal, prefixed, ensures_bind, ensures_current, ensures_advance, ensures_pure]
  exact ((h .unary s.advance).after (Spares.refl s).advance).imp fun e t ha =>
    ⟨by simpa [Expr.statementCount] using ha.1, ha.2⟩

theorem grouped_frugal (h : ∀ c s, (expr c).Frugal Expr.statementCount s) :
    (grouped expr).Frugal Expr.statementCount s := by
  simp only [Frugal, grouped, ensures_bind, ensures_advance, ensures_expectPeek, ensures_pure]
  refine ((h .lowest s.advance).after (Spares.refl s).advance).imp fun e t ha => ?_
  refine ⟨fun hc => ⟨?_, rest_ne_nil_of_kind (s := t.advance) hc (by decide)⟩, fun _ => ha.1.drop⟩
  simpa using ha.1.advance

theorem parameter_frugal : parameter.Frugal (fun _ => 0) s := by
  simp only [Frugal, parameter, ensures_bind, ensures_expectPeek, ensures_pure]
  have hs : Spares s s 0 := .refl s
  exact ⟨fun hk => ⟨hs.advance, rest_ne_nil_of_kind (s := s.advance) hk (by decide)⟩, fun _ => hs⟩

theorem function_frugal (h : ∀ s, (statement expr).Frugal Stmt.innerCount s) :
    (function expr).Frugal Expr.statementCount s := by
  simp only [Frugal, function, ensures_bind, ensures_current, ensures_expectPeek, ensures_pure]
  have hs : Spares s s 0 := .refl s
  refine ⟨fun _ => ?_, fun _ => hs⟩
  refine ((parenthesised_frugal fun _ => parameter_frugal).after hs.advance).imp fun is u ha => ?_
  refine ⟨fun hb => ?_, fun _ => ha.1.drop⟩
  have hu := rest_ne_nil_of_kind (s := u.advance) hb (by decide)
  exact ((block_frugal h hu).after ha.1.advance.drop).imp fun b t hb =>
    ⟨by simpa [Expr.statementCount] using hb.1, hb.2⟩

theorem conditional_frugal (h : ∀ c s, (expr c).Frugal Expr.statementCount s)
    (hstmt : ∀ s, (statement expr).Frugal Stmt.innerCount s) :
    (conditional expr).Frugal Expr.statementCount s := by
  simp only [Frugal, conditional, ensures_bind, ensures_current, ensures_expectPeek,
    ensures_advance, ensures_peek]
  have hs : Spares s s 0 := .refl s
  refine ⟨fun _ => ?_, fun _ => hs⟩
  refine ((h .lowest _).after hs.advance.advance).imp fun c u hc => ?_
  refine ⟨fun _ => ⟨fun ho => ?_, fun _ => hc.1.advance.drop⟩, fun _ => hc.1.drop⟩
  have hu := rest_ne_nil_of_kind (s := u.advance.advance) ho (by decide)
  refine ((block_frugal hstmt hu).after hc.1.advance.advance).imp fun b v hb => ?_
  split
  · simp only [ensures_bind, ensures_advance, ensures_expectPeek, ensures_pure]
    refine ⟨fun ho => ?_, fun _ => hb.1.advance.drop⟩
    have hv := rest_ne_nil_of_kind (s := v.advance.advance) ho (by decide)
    exact ((block_frugal hstmt hv).after hb.1.advance.advance).imp fun d w hd =>
      ⟨by simpa [Expr.statementCount] using hd.1, hd.2⟩
  · exact ⟨by simpa [Expr.statementCount] using hb.1, hb.2⟩

theorem operand_frugal (h : ∀ c s, (expr c).Frugal Expr.statementCount s)
    (hstmt : ∀ s, (statement expr).Frugal Stmt.innerCount s) :
    (operand rules expr).Frugal Expr.statementCount s := by
  simp only [Frugal, operand, ensures_bind, ensures_current]
  cases rules.operand s.current.kind with
  | none => exact ensures_refuse.2 (.refl s)
  | some rule =>
    cases rule with
    | primary => exact primary_frugal
    | prefixed => exact prefixed_frugal h
    | grouped => exact grouped_frugal h
    | conditional => exact conditional_frugal h hstmt
    | function => exact function_frugal hstmt

theorem statementCountList_eq_total (es : List Expr) :
    Expr.statementCountList es = total Expr.statementCount es := by
  induction es with
  | nil => rfl
  | cons e es ih =>
    rw [Expr.statementCountList, ih]
    rfl

theorem operator_frugal (h : ∀ c s, (expr c).Frugal Expr.statementCount s) (rule : OperatorRule)
    (p : Power) (left : Expr) :
    (rule.parse expr p left).Ensures s
      (fun e t => (∃ k, e.statementCount = left.statementCount + k ∧ Spares s t k) ∧ t.rest ≠ [])
      fun _ t => Spares s t 0 := by
  have hs : Spares s s 0 := .refl s
  cases rule with
  | binary =>
    change (binary expr p left).Ensures s _ _
    simp only [binary, ensures_bind, ensures_current, ensures_advance, ensures_pure]
    exact ((h p s.advance).after hs.advance).imp fun e t ha => ⟨⟨_, rfl, by simpa using ha.1⟩, ha.2⟩
  | call =>
    have harg (s : State) : (argument expr).Frugal Expr.statementCount s := by
      simp only [Frugal, argument, ensures_bind, ensures_advance]
      simpa using (h .lowest s.advance).after (Spares.refl s).advance
    change (call expr left).Ensures s _ _
    simp only [call, ensures_bind, ensures_current, ensures_pure]
    refine (parenthesised_frugal harg).imp fun es t ha => ⟨⟨_, ?_, ha.1⟩, ha.2⟩
    rw [Expr.statementCount, statementCountList_eq_total]

theorem extend_frugal (h : ∀ c s, (expr c).Frugal Expr.statementCount s) {left : Expr}
    (hl : Spares s₀ s left.statementCount) (hs : s.rest ≠ []) (c : Power) :
    (extend rules expr c left).Ensures s (fun e t => Spares s₀ t e.statementCount ∧ t.rest ≠ [])
      fun _ t => Spares s₀ t 0 := by
  refine ensures_of_run fun r t ht => ?_
  change runExtend rules expr c left s = _ at ht
  fun_induction runExtend rules expr c left s generalizing r t with
  | case1 left s hs' => exact absurd hs' hs
  | case2 left s hs' hr =>
    cases ht
    exact ⟨hl, hs⟩
  | case3 left s hs' p rule hr hp wider u hu ih =>
    obtain ⟨⟨k, hk, hpaid⟩, hrest⟩ := (operator_frugal h rule p left).ok hu
    exact ih (hk ▸ hl.advance.trans hpaid) hrest r t ht
  | case4 left s hs' p rule hr hp e u hu =>
    cases ht
    exact (hl.advance.trans ((operator_frugal h rule p left).error hu)).drop
  | case5 left s hs' p rule hr hp =>
    cases ht
    exact ⟨hl, hs⟩

theorem expression_frugal (levels : Nat) (c : Power) (s : State) :
    (expression rules levels c).Frugal Expr.statementCount s := by
  induction levels generalizing c s with
  | zero =>
    simp only [Frugal, expression, ensures_bind, ensures_current, ensures_fail]
    exact .refl s
  | succ levels ih =>
    simp only [Frugal, expression, ensures_bind]
    exact (operand_frugal ih fun _ => statement_frugal fun _ => ih .lowest _).imp
      fun l u hl => extend_frugal ih hl.1 hl.2 c

theorem statements_cover {stmt : Parse Stmt} (h : ∀ s, stmt.Frugal Stmt.innerCount s) (s : State) :
    Covers s (statements stmt s).2 (Stmt.statementCountList (statements stmt s).1) := by
  fun_induction statements stmt s with
  | case1 s hs => exact .refl s
  | case2 s hs a u hu as v hv ih =>
    rw [hv] at ih
    exact (((h s).ok hu).1.covers_advance (State.rest_ne_nil_of_current hs)).trans ih
  | case3 s hs e u hu ih =>
    have hs' := State.rest_ne_nil_of_current hs
    simpa using (((h s).error hu).covers_recover (e := e) hs').trans ih

end Parse

end FrontEnd
