import FrontEnd.Session

namespace FrontEnd

/-- A procedure that is cut off has no outcome. One that fails leaves the session as it is then. -/
abbrev Procedure (α : Type) := ExceptT SyntaxError (StateT Session Option) α

namespace Procedure

def perform {α : Type} (p : Parse α) : Procedure α := ExceptT.mk fun s => some (s.run p)

def change (f : Session → Session) : Procedure Unit := ExceptT.mk fun s => some (.ok (), f s)

def rules : Procedure Rules := ExceptT.mk fun s => some (.ok s.rules, s)

def enter : Procedure Unit := ExceptT.mk fun s =>
  match s.enter with
  | .ok t => some (.ok (), t)
  | .error e => some (.error e, s)

theorem run_enter_of_lt {s : Session} (h : s.depth < maxNesting) :
    enter.run.run s = some (.ok (), { s with depth := s.depth + 1 }) := by
  simp [enter, StateT.run, Session.enter, h]

theorem run_enter_of_not_lt {s : Session} (h : ¬ s.depth < maxNesting) :
    enter.run.run s = some (.error ⟨.tooDeep maxNesting, s.current.position⟩, s) := by
  simp [enter, StateT.run, Session.enter, h]

def leave : StateT Session Option Unit := fun s => some ((), s.leave 1)

/-- The procedures by which reading comes back to itself. No measure bounds them: on some session
they might go on for ever. -/
structure Calls where
  expression : Power → Procedure Expr
  extend : Power → Expr → Procedure Expr
  arguments : Procedure (List Expr)
  inner : Procedure (List Stmt)
  statements : Procedure (List Stmt)

variable (calls : Calls)

def prefixed : Procedure Expr := do
  let token ← perform .current
  perform .advance
  let right ← calls.expression .unary
  return .unary token token.text right

def grouped : Procedure Expr := do
  perform .advance
  let inner ← calls.expression .lowest
  let _ ← perform (.expectPeek .closeParen)
  return inner

def binary (power : Power) (left : Expr) : Procedure Expr := do
  let token ← perform .current
  perform .advance
  let right ← calls.expression power
  return .binary token left token.text right

def argument : Procedure Expr := do
  perform .advance
  calls.expression .lowest

def arguments : Procedure (List Expr) := do
  let first ← argument calls
  let next ← perform .peek
  if next.kind = .comma then
    perform .advance
    let rest ← calls.arguments
    return first :: rest
  else return [first]

def enclosed : Procedure (List Expr) := do
  let token ← perform .peek
  if token.kind = .closeParen then
    perform .advance
    return []
  else
    let items ← calls.arguments
    let _ ← perform (.expectPeek .closeParen)
    return items

def call (callee : Expr) : Procedure Expr := do
  let token ← perform .current
  let arguments ← enclosed calls
  return .call token callee arguments

def operator (rule : OperatorRule) (power : Power) (left : Expr) : Procedure Expr :=
  match rule with
  | .binary => binary calls power left
  | .call => call calls left

def extend (ceiling : Power) (left : Expr) : Procedure Expr := do
  let token ← perform .peek
  match (← rules).operator token.kind with
  | none => return left
  | some (power, rule) =>
    if ceiling < power then
      perform .advance
      let wider ← operator calls rule power left
      calls.extend ceiling wider
    else return left

def letStatement : Procedure Stmt := do
  let token ← perform .current
  let name ← perform (.expectPeek .identifier)
  let _ ← perform (.expectPeek .assignment)
  perform .advance
  let value ← calls.expression .lowest
  perform .skipSemicolon
  return .letBinding token ⟨name, name.text⟩ value

def returnStatement : Procedure Stmt := do
  let token ← perform .current
  perform .advance
  let value ← calls.expression .lowest
  perform .skipSemicolon
  return .ret token value

def expressionStatement : Procedure Stmt := do
  let token ← perform .current
  let expression ← calls.expression .lowest
  perform .skipSemicolon
  return .expr token expression

def statement : Procedure Stmt := do
  let token ← perform .current
  match token.kind with
  | .letWord => letStatement calls
  | .returnWord => returnStatement calls
  | _ => expressionStatement calls

/-- An error at a closing brace is recorded, and the same brace looked at again. -/
def innerAfter : Except SyntaxError Stmt → Procedure (List Stmt)
  | .ok first => do
    perform .advance
    let rest ← calls.inner
    return first :: rest
  | .error e => do
    let token ← perform .current
    if token.kind = .closeCurly then
      change (·.record e)
      calls.inner
    else
      change (·.recover e)
      perform .advance
      calls.inner

def inner : Procedure (List Stmt) := do
  let token ← perform .current
  if token.kind = .closeCurly then return []
  else if token.kind = .eof then perform (.fail (.unexpected .closeCurly .eof) token.position)
  else
    (do
      let result ← (statement calls).run
      innerAfter calls result : StateT Session Option (Except SyntaxError (List Stmt)))

def block : Procedure Block := do
  let token ← perform .current
  perform .advance
  let statements ← calls.inner
  return .mk token statements

def conditional : Procedure Expr := do
  let token ← perform .current
  let _ ← perform (.expectPeek .openParen)
  perform .advance
  let condition ← calls.expression .lowest
  let _ ← perform (.expectPeek .closeParen)
  let _ ← perform (.expectPeek .openCurly)
  let consequence ← block calls
  let next ← perform .peek
  if next.kind = .elseWord then
    perform .advance
    let _ ← perform (.expectPeek .openCurly)
    let alternative ← block calls
    return .cond token condition consequence (some alternative)
  else return .cond token condition consequence none

def function : Procedure Expr := do
  let token ← perform .current
  let _ ← perform (.expectPeek .openParen)
  let parameters ← perform (.parenthesised .parameter)
  let _ ← perform (.expectPeek .openCurly)
  let body ← block calls
  return .fn token parameters body

def operandBy : OperandRule → Procedure Expr
  | .primary => perform .primary
  | .prefixed => prefixed calls
  | .grouped => grouped calls
  | .conditional => conditional calls
  | .function => function calls

def operand : Procedure Expr := do
  let token ← perform .current
  match (← rules).operand token.kind with
  | some rule => operandBy calls rule
  | none => perform .refuse

def inside (ceiling : Power) : Procedure Expr := do
  let left ← operand calls
  calls.extend ceiling left

def expression (ceiling : Power) : Procedure Expr := do
  enter
  (do
    let result ← (inside calls ceiling).run
    leave
    return result : StateT Session Option (Except SyntaxError Expr))

def statementsAfter : Except SyntaxError Stmt → Procedure (List Stmt)
  | .ok first => do
    perform .advance
    let rest ← calls.statements
    return first :: rest
  | .error e => do
    change (·.recover e)
    perform .advance
    calls.statements

def statements : Procedure (List Stmt) := do
  let token ← perform .current
  if token.kind = .eof then return []
  else
    (do
      let result ← (statement calls).run
      statementsAfter calls result : StateT Session Option (Except SyntaxError (List Stmt)))

def program : Procedure Program := return ⟨← calls.statements⟩

def Calls.further : Calls where
  expression := Procedure.expression calls
  extend := Procedure.extend calls
  arguments := Procedure.arguments calls
  inner := Procedure.inner calls
  statements := Procedure.statements calls

def cutOff {α : Type} : Procedure α := ExceptT.mk fun _ => none

/-- The calls, cut off at this depth. -/
def Calls.upTo : Nat → Calls
  | 0 => ⟨fun _ => cutOff, fun _ _ => cutOff, cutOff, cutOff, cutOff⟩
  | n + 1 => (upTo n).further

/-- The procedure ends on the session with this outcome: it is the one at every depth that is large
enough. -/
def Returns {α : Type} (q : Calls → Procedure α) (s : Session) (r : Except SyntaxError α)
    (t : Session) : Prop :=
  ∃ n, ∀ m, n ≤ m → (q (.upTo m)).run.run s = some (r, t)

theorem returns_const_iff {α : Type} {q : Procedure α} {s t : Session} {r : Except SyntaxError α} :
    Returns (fun _ => q) s r t ↔ q.run.run s = some (r, t) :=
  ⟨fun ⟨n, hn⟩ => hn n (Nat.le_refl n), fun h => ⟨0, fun _ _ => h⟩⟩

theorem Returns.unique {α : Type} {q : Calls → Procedure α} {s t t' : Session}
    {r r' : Except SyntaxError α} (h : Returns q s r t) (h' : Returns q s r' t') :
    r = r' ∧ t = t' := by
  obtain ⟨n, hn⟩ := h
  obtain ⟨n', hn'⟩ := h'
  have heq := (hn _ (Nat.le_max_left n n')).symm.trans (hn' _ (Nat.le_max_right n n'))
  cases heq
  exact ⟨rfl, rfl⟩

end Procedure

end FrontEnd
