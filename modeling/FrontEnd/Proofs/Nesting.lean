import FrontEnd.Proofs.Termination

namespace FrontEnd

def Procedure.silent {α : Type} (q : Calls → Procedure α) (calls : Calls) : Procedure Unit := do
  let _ ← q calls
  return ()

open Procedure

/-- What the owner of a session can have read. -/
inductive Reading where
  | program
  | statement
  | letStatement
  | returnStatement
  | expressionStatement
  | block
  | expression (ceiling : Power)
  | operand (rule : OperandRule)
  | operator (rule : OperatorRule) (power : Power) (left : Expr)

def Reading.procedure : Reading → Calls → Procedure Unit
  | program => silent Procedure.program
  | statement => silent Procedure.statement
  | letStatement => silent Procedure.letStatement
  | returnStatement => silent Procedure.returnStatement
  | expressionStatement => silent Procedure.expressionStatement
  | block => silent Procedure.block
  | expression ceiling => silent (·.expression ceiling)
  | operand rule => silent (Procedure.operandBy · rule)
  | operator rule power left => silent (Procedure.operator · rule power left)

abbrev Reading.Answer : Reading → Type
  | program => Program
  | statement | letStatement | returnStatement | expressionStatement => Stmt
  | block => Block
  | expression _ | operand _ | operator _ _ _ => Expr

def Reading.answer : (reading : Reading) → Calls → Procedure reading.Answer
  | program => Procedure.program
  | statement => Procedure.statement
  | letStatement => Procedure.letStatement
  | returnStatement => Procedure.returnStatement
  | expressionStatement => Procedure.expressionStatement
  | block => Procedure.block
  | expression ceiling => (·.expression ceiling)
  | operand rule => (Procedure.operandBy · rule)
  | operator rule power left => (Procedure.operator · rule power left)

def Reading.parse (expr : Power → Parse Expr) : (reading : Reading) → Parse reading.Answer
  | program => return ⟨← Parse.program (Parse.statement expr)⟩
  | statement => Parse.statement expr
  | letStatement => Parse.letStatement expr
  | returnStatement => Parse.returnStatement expr
  | expressionStatement => Parse.expressionStatement expr
  | block => Parse.block expr
  | expression ceiling => expr ceiling
  | operand rule => rule.parse expr
  | operator rule power left => rule.parse expr power left

theorem Reading.procedure_eq_silent (reading : Reading) :
    reading.procedure = silent reading.answer := by
  cases reading <;> rfl

inductive Operation where
  | advance
  | expectPeek (kind : TokenKind)
  | record (error : SyntaxError)
  | recover (error : SyntaxError)
  | register (registration : Session.Registration)
  | enter
  | leave
  | read (reading : Reading)

def Operation.procedure : Operation → Calls → Procedure Unit
  | advance => fun _ => Procedure.perform .advance
  | expectPeek kind => silent fun _ => Procedure.perform (.expectPeek kind)
  | record error => fun _ => Procedure.change (·.record error)
  | recover error => fun _ => Procedure.change (·.recover error)
  | register registration => fun _ => Procedure.change (·.register registration)
  | enter => fun _ => Procedure.enter
  | leave => fun _ => Procedure.change (·.leave 1)
  | read reading => reading.procedure

namespace Session

/-- The session was made from a source and came this far by operations of its owner, failed ones
included. -/
inductive Reachable : Session → Prop
  | start {l : Lexer} {s : Session} : ofLexer? l = some s → Reachable s
  | step {s t : Session} {r : Except SyntaxError Unit} (op : Operation) : Reachable s →
      Returns op.procedure s r t → Reachable t

def enterTimes : Nat → Session → Except SyntaxError Session
  | 0, s => .ok s
  | n + 1, s =>
    match s.enter with
    | .ok t => enterTimes n t
    | .error e => .error e

theorem enterTimes_eq_ok_iff {n : Nat} {s : Session} (hs : s.depth ≤ maxNesting) :
    (∃ t, s.enterTimes n = .ok t) ↔ s.depth + n ≤ maxNesting := by
  induction n generalizing s with
  | zero => simpa [enterTimes] using hs
  | succ n ih =>
    unfold enterTimes enter
    by_cases hd : s.depth < maxNesting
    · simp only [if_pos hd]
      have h := ih (s := { s with depth := s.depth + 1 }) hd
      rwa [Nat.add_assoc, Nat.add_comm 1 n] at h
    · simp only [if_neg hd, reduceCtorEq, exists_false, false_iff]
      omega

end Session

theorem silent_ends {α : Type} {rules : Rules} {depth : Nat} {q : Calls → Procedure α} {s : State}
    {o : Except SyntaxError α × State} (h : Ends rules depth q s o) :
    ∃ r, Ends rules depth (silent q) s (r, o.2) := by
  obtain ⟨r, t⟩ := o
  cases r with
  | ok a => exact ⟨_, h.bind_ok (ends_pure () t)⟩
  | error e => exact ⟨_, h.bind_error⟩

theorem silent_ends_run {α : Type} {rules : Rules} {depth : Nat} {q : Calls → Procedure α}
    {p : Parse α} {s : State} (h : Ends rules depth q s (p.run s)) :
    ∃ r t, Ends rules depth (silent q) s (r, t) ∧ s.Advances t := by
  obtain ⟨r, hr⟩ := silent_ends h
  exact ⟨r, _, hr, p.forward s⟩

theorem Reading.answer_ends (reading : Reading) (rules : Rules) (depth : Nat) (s : State) :
    Ends rules depth reading.answer s
      ((reading.parse (Parse.expression rules (maxNesting - depth))).run s) := by
  have h := expression_ends rules depth
  cases reading with
  | program => exact program_ends h s
  | statement => exact statement_ends h s
  | letStatement => exact letStatement_ends h s
  | returnStatement => exact returnStatement_ends h s
  | expressionStatement => exact expressionStatement_ends h s
  | block => exact block_ends h s
  | expression ceiling => exact h ceiling s
  | operand rule => exact operandBy_ends h rule s
  | operator rule power left => exact operator_ends h rule power left s

/-- Whatever is read, reading ends further on and leaves the rules and the open levels as they
were. -/
theorem Reading.ends (reading : Reading) (rules : Rules) (depth : Nat) (s : State) :
    ∃ r t, Ends rules depth reading.procedure s (r, t) ∧ s.Advances t := by
  rw [reading.procedure_eq_silent]
  exact silent_ends_run (reading.answer_ends rules depth s)

theorem Reading.returns_procedure (reading : Reading) (s : Session) :
    ∃ r t, Returns reading.procedure s r t ∧ t.depth = s.depth := by
  obtain ⟨r, t, ht, -⟩ := reading.ends s.rules s.depth s.state
  exact ⟨r, ⟨s.rules, s.depth, t⟩, ht, rfl⟩

/-- What one operation makes of a session: nothing is read or recorded that it takes back, no more
levels are open than the limit, and only a registration changes the rules. -/
structure Session.Evolves (op : Operation) (s t : Session) : Prop where
  advances : s.state.Advances t.state
  depth : s.depth ≤ maxNesting → t.depth ≤ maxNesting
  rules : (∀ registration, op ≠ .register registration) → t.rules = s.rules

theorem Operation.returns_procedure (op : Operation) (s : Session) :
    ∃ r t, Returns op.procedure s r t ∧ s.Evolves op t := by
  cases op with
  | advance =>
    exact ⟨_, _, returns_const_iff.2 rfl, State.advances_advance _, id, fun _ => rfl⟩
  | expectPeek kind =>
    have hends : Ends s.rules s.depth (fun _ => perform (.expectPeek kind)) s.state _ :=
      ends_perform _ _
    obtain ⟨r, t, ht, hadv⟩ := silent_ends_run hends
    exact ⟨r, ⟨s.rules, s.depth, t⟩, ht, hadv, id, fun _ => rfl⟩
  | record error =>
    exact ⟨_, _, returns_const_iff.2 rfl, State.advances_record _ error, id, fun _ => rfl⟩
  | recover error =>
    exact ⟨_, _, returns_const_iff.2 rfl, State.advances_recover _ error, id, fun _ => rfl⟩
  | register registration =>
    have hadv : s.state.Advances (s.register registration).state := by
      cases registration <;> exact .refl _
    have hdepth : (s.register registration).depth = s.depth := by cases registration <;> rfl
    exact ⟨_, _, returns_const_iff.2 rfl, hadv, fun h => hdepth ▸ h, fun h => (h _ rfl).elim⟩
  | enter =>
    by_cases hd : s.depth < maxNesting
    · exact ⟨_, _, returns_const_iff.2 (run_enter_of_lt hd), .refl _, fun _ => hd, fun _ => rfl⟩
    · exact ⟨_, _, returns_const_iff.2 (run_enter_of_not_lt hd), .refl _, id, fun _ => rfl⟩
  | leave =>
    exact ⟨_, _, returns_const_iff.2 rfl, .refl _, Nat.le_trans (Nat.sub_le _ _), fun _ => rfl⟩
  | read reading =>
    obtain ⟨r, t, ht, hadv⟩ := reading.ends s.rules s.depth s.state
    exact ⟨r, ⟨s.rules, s.depth, t⟩, ht, hadv, id, fun _ => rfl⟩

theorem Operation.evolves {op : Operation} {s t : Session} {r : Except SyntaxError Unit}
    (h : Returns op.procedure s r t) : s.Evolves op t := by
  obtain ⟨r', t', ht', hevolves⟩ := op.returns_procedure s
  obtain ⟨-, rfl⟩ := ht'.unique h
  exact hevolves

theorem Session.Reachable.depth_le {s : Session} (h : s.Reachable) : s.depth ≤ maxNesting := by
  induction h with
  | @start l s hs =>
    unfold Session.ofLexer? at hs
    obtain ⟨_, -, rfl⟩ := Option.map_eq_some_iff.1 hs
    exact Nat.zero_le _
  | step op _ hop ih => exact (Operation.evolves hop).depth ih

/-- However a session was used before, at most as many levels are open as the limit says. Whatever is
read next, reading ends, and whether it fails or not as many levels are open as before: the same
number of levels can be opened then. -/
theorem nesting_balanced {s : Session} (h : s.Reachable) :
    s.depth ≤ maxNesting ∧ ∀ reading : Reading, ∃ r t, Returns reading.procedure s r t ∧
      t.depth = s.depth ∧ ∀ n, (∃ u, t.enterTimes n = .ok u) ↔ ∃ u, s.enterTimes n = .ok u := by
  refine ⟨h.depth_le, fun reading => ?_⟩
  obtain ⟨r, t, ht, hd⟩ := reading.returns_procedure s
  refine ⟨r, t, ht, hd, fun n => ?_⟩
  rw [Session.enterTimes_eq_ok_iff h.depth_le, Session.enterTimes_eq_ok_iff (hd ▸ h.depth_le), hd]

theorem nesting_balanced_entered :
    let s : Session := ((⟨.standard, 0, .ofSource "(-" none⟩ : Session).register
      (.operator .eof .call .binary))
    let t : Session := { s with depth := 1 }
    t.Reachable ∧ t.depth ≤ maxNesting ∧
      ∀ reading : Reading, ∃ r u, Returns reading.procedure t r u ∧ u.depth = t.depth ∧
        ∀ n, (∃ v, u.enterTimes n = .ok v) ↔ ∃ v, t.enterTimes n = .ok v := by
  intro s t
  have hs : s.Reachable := .step (.register (.operator .eof .call .binary))
    (.start (Session.ofLexer?_ofSource "(-" none)) (returns_const_iff.2 rfl)
  have ht : t.Reachable := .step .enter hs (returns_const_iff.2 (run_enter_of_lt (by decide)))
  exact ⟨ht, nesting_balanced ht⟩

end FrontEnd
