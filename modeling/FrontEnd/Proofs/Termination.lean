import FrontEnd.Procedure
import FrontEnd.Proofs.Progress
import FrontEnd.Proofs.Scanning
import FrontEnd.Proofs.Steps

namespace FrontEnd.Procedure

open Parse

variable {α β : Type} {rules : Rules} {depth : Nat} {s t : State}

/-- On a session with these rules and so many open levels, and this much left to read, the procedure
ends with the outcome and changes nothing else. -/
def Ends (rules : Rules) (depth : Nat) (q : Calls → Procedure α) (s : State)
    (outcome : Except SyntaxError α × State) : Prop :=
  Returns q ⟨rules, depth, s⟩ outcome.1 ⟨rules, depth, outcome.2⟩

section

variable {q : Calls → Procedure α} {p : Parse α} {f : Calls → α → Procedure β} {g : α → Parse β}
  {o : Except SyntaxError β × State}

theorem ends_perform (p : Parse α) (s : State) : Ends rules depth (fun _ => perform p) s (p.run s) :=
  returns_const_iff.2 rfl

theorem ends_pure (a : α) (s : State) : Ends rules depth (fun _ => pure a) s (.ok a, s) :=
  returns_const_iff.2 rfl

theorem Ends.call {q : Calls → Procedure β} (h : Ends rules depth (fun calls => q calls.further) s o) :
    Ends rules depth q s o := by
  obtain ⟨n, hn⟩ := h
  refine ⟨n + 1, fun m hm => ?_⟩
  obtain ⟨k, rfl⟩ : ∃ k, m = k + 1 := ⟨m - 1, by omega⟩
  exact hn k (by omega)

theorem Ends.bind_ok {a : α} (h : Ends rules depth q s (.ok a, t))
    (k : Ends rules depth (fun calls => f calls a) t o) :
    Ends rules depth (fun calls => q calls >>= f calls) s o := by
  obtain ⟨n, hn⟩ := h
  obtain ⟨n', hn'⟩ := k
  refine ⟨max n n', fun m hm => ?_⟩
  rw [ExceptT.run_bind, StateT.run_bind, hn m (by omega)]
  exact hn' m (by omega)

theorem Ends.bind_error {e : SyntaxError} (h : Ends rules depth q s (.error e, t)) :
    Ends rules depth (fun calls => q calls >>= f calls) s (.error e, t) := by
  obtain ⟨n, hn⟩ := h
  refine ⟨n, fun m hm => ?_⟩
  rw [ExceptT.run_bind, StateT.run_bind, hn m hm]
  rfl

theorem Ends.bind (h : Ends rules depth q s (p.run s))
    (k : ∀ a t, p.run s = (.ok a, t) → Ends rules depth (fun calls => f calls a) t ((g a).run t)) :
    Ends rules depth (fun calls => q calls >>= f calls) s ((p >>= g).run s) := by
  cases hp : p.run s with
  | mk r t =>
    rw [hp] at h
    cases r with
    | ok a =>
      rw [run_bind_ok hp]
      exact h.bind_ok (k a t hp)
    | error e =>
      rw [run_bind_error hp]
      exact h.bind_error

theorem Ends.current_bind {f : Calls → Token → Procedure β}
    (h : Ends rules depth (fun calls => f calls s.current) s o) :
    Ends rules depth (fun calls => perform .current >>= f calls) s o :=
  Ends.bind_ok (ends_perform _ s) h

theorem Ends.peek_bind {f : Calls → Token → Procedure β}
    (h : Ends rules depth (fun calls => f calls s.peek) s o) :
    Ends rules depth (fun calls => perform .peek >>= f calls) s o :=
  Ends.bind_ok (ends_perform _ s) h

theorem Ends.advance_bind {f : Calls → Unit → Procedure β}
    (h : Ends rules depth (fun calls => f calls ()) s.advance o) :
    Ends rules depth (fun calls => perform .advance >>= f calls) s o :=
  Ends.bind_ok (ends_perform _ s) h

theorem Ends.rules_bind {f : Calls → Rules → Procedure β}
    (h : Ends rules depth (fun calls => f calls rules) s o) :
    Ends rules depth (fun calls => Procedure.rules >>= f calls) s o :=
  Ends.bind_ok (t := s) (returns_const_iff.2 rfl) h

theorem Ends.change_bind {u : Session → Session} {f : Calls → Unit → Procedure β}
    (hu : u ⟨rules, depth, s⟩ = ⟨rules, depth, t⟩) (h : Ends rules depth (fun calls => f calls ()) t o) :
    Ends rules depth (fun calls => change u >>= f calls) s o := by
  refine Ends.bind_ok (t := t) (returns_const_iff.2 ?_) h
  rw [← hu]
  rfl

theorem Ends.attempt {r : Except SyntaxError α} {f : Calls → Except SyntaxError α → Procedure β}
    (h : Ends rules depth q s (r, t)) (k : Ends rules depth (fun calls => f calls r) t o) :
    Ends rules depth (fun calls =>
      (do let r ← (q calls).run; f calls r : StateT Session Option (Except SyntaxError β))) s o := by
  obtain ⟨n, hn⟩ := h
  obtain ⟨n', hn'⟩ := k
  refine ⟨max n n', fun m hm => ?_⟩
  change StateT.run ((q _).run >>= f _) _ = _
  rw [StateT.run_bind, hn m (by omega)]
  exact hn' m (by omega)

end

section

variable {expr : Power → Parse Expr}
  (h : ∀ c s, Ends rules depth (fun calls => calls.expression c) s ((expr c).run s))

include h

theorem prefixed_ends (s : State) : Ends rules depth prefixed s ((Parse.prefixed expr).run s) := by
  unfold prefixed
  refine (ends_perform _ s).bind fun _ t _ => (ends_perform _ t).bind fun _ u _ => ?_
  exact (h .unary u).bind fun _ v _ => ends_pure _ v

theorem grouped_ends (s : State) : Ends rules depth grouped s ((Parse.grouped expr).run s) := by
  unfold grouped
  refine (ends_perform _ s).bind fun _ t _ => (h .lowest t).bind fun _ u _ => ?_
  exact (ends_perform _ u).bind fun _ v _ => ends_pure _ v

theorem binary_ends (p : Power) (left : Expr) (s : State) :
    Ends rules depth (fun calls => binary calls p left) s ((Parse.binary expr p left).run s) := by
  unfold binary
  refine (ends_perform _ s).bind fun _ t _ => (ends_perform _ t).bind fun _ u _ => ?_
  exact (h p u).bind fun _ v _ => ends_pure _ v

theorem argument_ends (s : State) : Ends rules depth argument s ((Parse.argument expr).run s) := by
  unfold argument
  exact (ends_perform _ s).bind fun _ t _ => h .lowest t

theorem arguments_end (s : State) :
    Ends rules depth Calls.arguments s ((items (Parse.argument expr)).run s) := by
  induction hl : s.rest.length using Nat.strongRecOn generalizing s with
  | ind n ih =>
    refine .call ?_
    change Ends rules depth arguments s _
    unfold arguments
    rw [run_items]
    refine (argument_ends h s).bind fun a t ht => (ends_perform _ t).bind ?_
    rintro _ _ ⟨⟩
    split
    · next hc =>
      refine (ends_perform _ t).bind ?_
      rintro _ _ ⟨⟩
      have hle := (advances_of_run ht).length_le
      have hlt := (State.Advances.refl t).length_advance_lt (State.rest_ne_nil_of_peek (by simp [hc]))
      exact (ih _ (by omega) _ rfl).bind fun _ v _ => ends_pure _ v
    · exact ends_pure _ t

theorem enclosed_ends (s : State) :
    Ends rules depth enclosed s ((parenthesised (Parse.argument expr)).run s) := by
  unfold enclosed
  refine (ends_perform _ s).bind ?_
  rintro _ _ ⟨⟩
  split
  · exact (ends_perform _ s).bind fun _ t _ => ends_pure _ t
  · refine (arguments_end h s).bind fun _ t _ => ?_
    exact (ends_perform _ t).bind fun _ u _ => ends_pure _ u

theorem call_ends (callee : Expr) (s : State) :
    Ends rules depth (fun calls => call calls callee) s ((Parse.call expr callee).run s) := by
  unfold call
  refine (ends_perform _ s).bind fun _ t _ => ?_
  exact (enclosed_ends h t).bind fun _ u _ => ends_pure _ u

theorem operator_ends (rule : OperatorRule) (p : Power) (left : Expr) (s : State) :
    Ends rules depth (fun calls => operator calls rule p left) s ((rule.parse expr p left).run s) := by
  cases rule with
  | binary => exact binary_ends h p left s
  | call => exact call_ends h left s

/-- The loop ends before the input does, since the operand of an operator ends on a token. -/
theorem extend_ends (hf : ∀ c s, (expr c).Frugal Expr.statementCount s) (c : Power) (left : Expr)
    (hs : s.rest ≠ []) :
    Ends rules depth (fun calls => calls.extend c left) s
      ((Parse.extend rules expr c left).run s) := by
  induction hl : s.rest.length using Nat.strongRecOn generalizing s left with
  | ind n ih =>
    refine .call ?_
    change Ends rules depth (fun calls => extend calls c left) s _
    unfold extend
    refine .peek_bind (.rules_bind ?_)
    cases hr : rules.operator s.peek.kind with
    | none =>
      rw [run_extend_none hr]
      exact ends_pure left s
    | some pr =>
      obtain ⟨p, rule⟩ := pr
      by_cases hp : c < p
      · simp only [if_pos hp]
        rw [run_extend_step hs hr hp]
        refine (ends_perform _ s).bind ?_
        rintro _ _ ⟨⟩
        refine (operator_ends h rule p left s.advance).bind fun wider t ht => ?_
        have hle := (advances_of_run ht).length_le
        have hlt := (State.Advances.refl s).length_advance_lt hs
        exact ih _ (by omega) wider ((operator_frugal hf rule p left).ok ht).2 rfl
      · simp only [if_neg hp]
        rw [run_extend_loose hr hp]
        exact ends_pure left s

theorem letStatement_ends (s : State) :
    Ends rules depth letStatement s ((Parse.letStatement expr).run s) := by
  unfold letStatement
  refine (ends_perform _ s).bind fun _ t _ => (ends_perform _ t).bind fun _ u _ => ?_
  refine (ends_perform _ u).bind fun _ v _ => (ends_perform _ v).bind fun _ w _ => ?_
  exact (h .lowest w).bind fun _ x _ => (ends_perform _ x).bind fun _ y _ => ends_pure _ y

theorem returnStatement_ends (s : State) :
    Ends rules depth returnStatement s ((Parse.returnStatement expr).run s) := by
  unfold returnStatement
  refine (ends_perform _ s).bind fun _ t _ => (ends_perform _ t).bind fun _ u _ => ?_
  exact (h .lowest u).bind fun _ v _ => (ends_perform _ v).bind fun _ w _ => ends_pure _ w

theorem expressionStatement_ends (s : State) :
    Ends rules depth expressionStatement s ((Parse.expressionStatement expr).run s) := by
  unfold expressionStatement
  refine (ends_perform _ s).bind fun _ t _ => (h .lowest t).bind fun _ u _ => ?_
  exact (ends_perform _ u).bind fun _ v _ => ends_pure _ v

theorem statement_ends (s : State) : Ends rules depth statement s ((Parse.statement expr).run s) := by
  unfold statement
  refine (ends_perform _ s).bind fun token t _ => ?_
  generalize token.kind = kind
  cases kind with
  | letWord => exact letStatement_ends h t
  | returnWord => exact returnStatement_ends h t
  | _ => exact expressionStatement_ends h t

omit h in
theorem inner_ends_close (hc : s.current.kind = .closeCurly) :
    Ends rules depth Calls.inner s (.ok [], s) := by
  refine .call ?_
  change Ends rules depth inner s _
  unfold inner
  refine .current_bind ?_
  simp only [if_pos hc]
  exact ends_pure [] s

theorem inner_ends (s : State) :
    Ends rules depth Calls.inner s ((Parse.inner (Parse.statement expr)).run s) := by
  induction hl : s.rest.length using Nat.strongRecOn generalizing s with
  | ind n ih =>
    by_cases hc : s.current.kind = .closeCurly
    · rw [run_inner_close hc]
      exact inner_ends_close hc
    · refine .call ?_
      change Ends rules depth inner s _
      unfold inner
      refine .current_bind ?_
      simp only [if_neg hc]
      by_cases he : s.current.kind = .eof
      · simp only [if_pos he]
        rw [run_inner_eof he]
        exact ends_perform _ s
      · simp only [if_neg he]
        have hs := State.rest_ne_nil_of_current he
        cases hp : (Parse.statement expr).run s with
        | mk r t =>
          have hstmt := statement_ends h s
          rw [hp] at hstmt
          refine hstmt.attempt ?_
          have hadv := advances_of_run hp
          cases r with
          | ok a =>
            simp only [innerAfter]
            rw [run_inner_ok hc he hp]
            refine .advance_bind ((ih _ ?_ _ rfl).bind fun _ u _ => ends_pure _ u)
            exact hl ▸ hadv.length_advance_lt hs
          | error e =>
            simp only [innerAfter]
            refine .current_bind ?_
            by_cases hk : t.current.kind = .closeCurly
            · simp only [if_pos hk]
              rw [run_inner_stop hc he hp hk]
              exact .change_bind rfl (inner_ends_close hk)
            · simp only [if_neg hk]
              rw [run_inner_recover hc he hp hk]
              refine .change_bind rfl (.advance_bind (ih _ ?_ _ rfl))
              exact hl ▸ (hadv.trans (State.advances_recover t e)).length_advance_lt hs

theorem block_ends (s : State) : Ends rules depth block s ((Parse.block expr).run s) := by
  unfold block
  refine (ends_perform _ s).bind fun _ t _ => (ends_perform _ t).bind fun _ u _ => ?_
  exact (inner_ends h u).bind fun _ v _ => ends_pure _ v

theorem conditional_ends (s : State) :
    Ends rules depth conditional s ((Parse.conditional expr).run s) := by
  unfold conditional
  refine (ends_perform _ s).bind fun _ t _ => (ends_perform _ t).bind fun _ u _ => ?_
  refine (ends_perform _ u).bind fun _ v _ => (h .lowest v).bind fun _ w _ => ?_
  refine (ends_perform _ w).bind fun _ x _ => (ends_perform _ x).bind fun _ y _ => ?_
  refine (block_ends h y).bind fun _ z _ => (ends_perform _ z).bind fun _ s _ => ?_
  split
  · refine (ends_perform _ s).bind fun _ t _ => (ends_perform _ t).bind fun _ u _ => ?_
    exact (block_ends h u).bind fun _ v _ => ends_pure _ v
  · exact ends_pure _ s

theorem function_ends (s : State) : Ends rules depth function s ((Parse.function expr).run s) := by
  unfold function
  refine (ends_perform _ s).bind fun _ t _ => (ends_perform _ t).bind fun _ u _ => ?_
  refine (ends_perform _ u).bind fun _ v _ => (ends_perform _ v).bind fun _ w _ => ?_
  exact (block_ends h w).bind fun _ x _ => ends_pure _ x

theorem operandBy_ends (rule : OperandRule) (s : State) :
    Ends rules depth (fun calls => operandBy calls rule) s ((rule.parse expr).run s) := by
  cases rule with
  | primary => exact ends_perform _ s
  | prefixed => exact prefixed_ends h s
  | grouped => exact grouped_ends h s
  | conditional => exact conditional_ends h s
  | function => exact function_ends h s

theorem operand_ends (s : State) :
    Ends rules depth operand s ((Parse.operand rules expr).run s) := by
  unfold operand
  refine (ends_perform _ s).bind fun token t _ => .rules_bind ?_
  cases rules.operand token.kind with
  | none => exact ends_perform _ t
  | some rule => exact operandBy_ends h rule t

theorem statements_end (s : State) :
    Ends rules depth Calls.statements s ((Parse.program (Parse.statement expr)).run s) := by
  induction hl : s.rest.length using Nat.strongRecOn generalizing s with
  | ind n ih =>
    refine .call ?_
    change Ends rules depth statements s _
    unfold statements
    refine .current_bind ?_
    by_cases he : s.current.kind = .eof
    · simp only [if_pos he]
      rw [run_program, statements_eof he]
      exact ends_pure [] s
    · simp only [if_neg he]
      have hs := State.rest_ne_nil_of_current he
      cases hp : (Parse.statement expr).run s with
      | mk r t =>
        have hstmt := statement_ends h s
        rw [hp] at hstmt
        refine hstmt.attempt ?_
        have hadv := advances_of_run hp
        cases r with
        | ok a =>
          simp only [statementsAfter]
          rw [run_program, statements_ok he hp]
          refine .advance_bind (Ends.bind_ok (ih _ ?_ _ rfl) (ends_pure _ _))
          exact hl ▸ hadv.length_advance_lt hs
        | error e =>
          simp only [statementsAfter]
          rw [run_program, statements_error he hp]
          refine .change_bind rfl (.advance_bind (ih _ ?_ _ rfl))
          exact hl ▸ (hadv.trans (State.advances_recover t e)).length_advance_lt hs

theorem program_ends (s : State) : Ends rules depth program s
    (.ok ⟨(Parse.statements (Parse.statement expr) s).1⟩,
      (Parse.statements (Parse.statement expr) s).2) := by
  have hs := statements_end h s
  rw [run_program] at hs
  exact hs.bind_ok (ends_pure _ _)

end

theorem expression_ends_of_inside {c : Power} {o : Except SyntaxError Expr × State}
    (hd : depth < maxNesting) (h : Ends rules (depth + 1) (fun calls => inside calls c) s o) :
    Ends rules depth (fun calls => expression calls c) s o := by
  obtain ⟨n, hn⟩ := h
  refine ⟨n, fun m hm => ?_⟩
  change (expression (.upTo m) c).run.run _ = _
  rw [expression, ExceptT.run_bind, StateT.run_bind, run_enter_of_lt hd]
  change StateT.run ((inside _ c).run >>= fun r => leave >>= fun _ => pure r) _ = _
  rw [StateT.run_bind, hn m hm]
  rfl

theorem expression_ends (rules : Rules) (depth : Nat) (c : Power) (s : State) :
    Ends rules depth (fun calls => calls.expression c) s
      ((Parse.expression rules (maxNesting - depth) c).run s) := by
  induction hl : maxNesting - depth generalizing depth c s with
  | zero =>
    have hd : ¬ depth < maxNesting := by omega
    refine .call ?_
    change Ends rules depth (fun calls => expression calls c) s _
    unfold expression
    exact .bind_error (returns_const_iff.2 (run_enter_of_not_lt hd))
  | succ levels ih =>
    have hlevels : maxNesting - (depth + 1) = levels := by omega
    have h (c : Power) (s : State) := ih (depth + 1) c s hlevels
    have hf (c : Power) (s : State) :
        (Parse.expression rules levels c).Frugal Expr.statementCount s :=
      expression_frugal levels c s
    have hstmt (s : State) :
        (Parse.statement (Parse.expression rules levels)).Frugal Stmt.innerCount s :=
      statement_frugal (hf .lowest)
    refine .call (expression_ends_of_inside (by omega) ?_)
    unfold inside
    exact (operand_ends h s).bind fun l t ht =>
      extend_ends h hf c l ((operand_frugal hf hstmt).ok ht).2

end FrontEnd.Procedure

namespace FrontEnd

open Parse

theorem Session.returns_program (s : Session) :
    Procedure.Returns Procedure.program s (.ok s.program.1) s.program.2 :=
  Procedure.program_ends (Procedure.expression_ends s.rules s.depth) s.state

theorem current_statements (stmt : Parse Stmt) (s : State) :
    (statements stmt s).2.current.kind = .eof := by
  fun_induction statements stmt s with
  | case1 s hs => exact hs
  | case2 s hs a u hu as v hv ih =>
    rw [hv] at ih
    exact ih
  | case3 s hs e u hu ih => exact ih

theorem state_foldl_register (rs : List Session.Registration) (s : Session) :
    (rs.foldl Session.register s).state = s.state := by
  induction rs generalizing s with
  | nil => rfl
  | cons r rs ih =>
    rw [List.foldl_cons, ih]
    cases r <;> rfl

theorem Session.program_covers (s : Session) :
    Covers s.state s.program.2.state s.program.1.statementCount :=
  statements_cover (fun _ => statement_frugal fun _ => expression_frugal _ .lowest _) s.state

theorem kind_peek_of_current {s : State} {file : String} {offset : Nat} {cs : List Char}
    (h : s.rest <:+ scan file offset cs) (hs : s.current.kind = .eof) : s.peek.kind = .eof := by
  cases hr : s.rest with
  | nil => simp [State.peek, hr]
  | cons t ts =>
    have hmem : t ∈ scan file offset cs := h.subset (by simp [hr])
    have ht : t.kind = .eof := by simpa [State.current, hr] using hs
    exact absurd ht (kind_ne_eof_of_mem_scan hmem)

/-- Whatever rules are registered, reading a program from a boundary of the source on ends, and it
ends at the end of the input. Each token pays for at most one statement or one error. -/
theorem program_progress {l : Lexer} {cs : List Char} (h : l.remainder? = some cs)
    (rs : List Session.Registration) :
    ∃ s p t, Session.ofLexer? l = some s ∧
      Procedure.Returns Procedure.program (rs.foldl Session.register s) (.ok p) t ∧
        (rs.foldl Session.register s).program = (p, t) ∧
          t.current.kind = .eof ∧ t.peek.kind = .eof ∧
            t.diagnostics.length + p.statementCount ≤ (scan l.file l.position cs).length := by
  let s : Session := ⟨.standard, 0,
    ⟨scan l.file l.position cs, .cover l.file (l.position + Text.byteSize cs) 0, []⟩⟩
  let r := rs.foldl Session.register s
  have hstate : r.state = s.state := state_foldl_register rs s
  have hcurrent : r.program.2.current.kind = .eof := current_statements _ _
  have hrest : r.program.2.state.rest <:+ scan l.file l.position cs := by
    have hadv : r.state.Advances r.program.2.state := advances_statements _ _
    rw [hstate] at hadv
    exact hadv.rest
  have hpaid := r.program_covers.paid
  rw [hstate, show s.state.diagnostics.length = 0 from rfl, Nat.zero_add] at hpaid
  exact ⟨s, r.program.1, r.program.2, Session.ofLexer?_of_remainder? h, r.returns_program, rfl,
    hcurrent, kind_peek_of_current hrest hcurrent, Nat.le_trans hpaid (Nat.sub_le _ _)⟩

theorem program_progress_eof :
    let l : Lexer := ⟨"\u00e9-a \x7d", "shell", 2⟩
    let rs : List Session.Registration :=
      [.operand .eof .prefixed, .operator .eof .call .binary, .operand .closeCurly .grouped]
    l.remainder? = some ['-', 'a', ' ', '\x7d'] ∧ ∃ s p t, Session.ofLexer? l = some s ∧
      Procedure.Returns Procedure.program (rs.foldl Session.register s) (.ok p) t ∧
        (rs.foldl Session.register s).program = (p, t) ∧
          t.current.kind = .eof ∧ t.peek.kind = .eof ∧
            t.diagnostics.length + p.statementCount ≤ (scan l.file l.position
              ['-', 'a', ' ', '\x7d']).length := by
  intro l rs
  have h : l.remainder? = some ['-', 'a', ' ', '\x7d'] := by decide
  exact ⟨h, program_progress h rs⟩

end FrontEnd
