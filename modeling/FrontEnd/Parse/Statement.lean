import FrontEnd.Parse.Basic
import FrontEnd.Rule.Power
import FrontEnd.Tree.Basic

namespace FrontEnd.Parse

def letStatement (expr : Power → Parse Expr) : Parse Stmt := do
  let token ← current
  let name ← expectPeek .identifier
  let _ ← expectPeek .assignment
  advance
  let value ← expr .lowest
  skipSemicolon
  return .letBinding token ⟨name, name.text⟩ value

def returnStatement (expr : Power → Parse Expr) : Parse Stmt := do
  let token ← current
  advance
  let value ← expr .lowest
  skipSemicolon
  return .ret token value

def expressionStatement (expr : Power → Parse Expr) : Parse Stmt := do
  let token ← current
  let expression ← expr .lowest
  skipSemicolon
  return .expr token expression

def statement (expr : Power → Parse Expr) : Parse Stmt := do
  let token ← current
  match token.kind with
  | .letWord => letStatement expr
  | .returnWord => returnStatement expr
  | _ => expressionStatement expr

/-- Statements up to the end of the input. One that fails is dropped and its error recorded, and
reading goes on behind it. -/
def statements (stmt : Parse Stmt) (s : State) : List Stmt × State :=
  if _hs : s.current.kind = .eof then ([], s)
  else
    match _h : stmt.run s with
    | (.ok first, t) =>
      let (rest, u) := statements stmt t.advance
      (first :: rest, u)
    | (.error e, t) => statements stmt (t.recover e).advance
termination_by s.rest.length
decreasing_by
  · exact (advances_of_run _h).length_advance_lt (State.rest_ne_nil_of_current _hs)
  · exact ((advances_of_run _h).trans (State.advances_recover t e)).length_advance_lt
      (State.rest_ne_nil_of_current _hs)

theorem advances_statements (stmt : Parse Stmt) (s : State) :
    s.Advances (statements stmt s).2 := by
  fun_induction statements stmt s with
  | case1 s hs => exact .refl s
  | case2 s hs first t h rest u hu ih =>
    rw [hu] at ih
    exact ((advances_of_run h).trans (State.advances_advance t)).trans ih
  | case3 s hs e t h ih =>
    exact (((advances_of_run h).trans (State.advances_recover t e)).trans
      (State.advances_advance _)).trans ih

/-- Statements up to a closing brace. When a statement fails at a closing brace, that brace ends
the block. -/
def runInner (stmt : Parse Stmt) (s : State) : Except SyntaxError (List Stmt) × State :=
  if s.current.kind = .closeCurly then (.ok [], s)
  else if _hs : s.current.kind = .eof then
    (.error ⟨.unexpected .closeCurly .eof, s.current.position⟩, s)
  else
    match _h : stmt.run s with
    | (.ok first, t) =>
      match runInner stmt t.advance with
      | (.ok rest, u) => (.ok (first :: rest), u)
      | (.error e, u) => (.error e, u)
    | (.error e, t) =>
      if t.current.kind = .closeCurly then (.ok [], t.record e)
      else runInner stmt (t.recover e).advance
termination_by s.rest.length
decreasing_by
  · exact (advances_of_run _h).length_advance_lt (State.rest_ne_nil_of_current _hs)
  · exact ((advances_of_run _h).trans (State.advances_recover t e)).length_advance_lt
      (State.rest_ne_nil_of_current _hs)

theorem advances_runInner (stmt : Parse Stmt) (s : State) : s.Advances (runInner stmt s).2 := by
  fun_induction runInner stmt s with
  | case1 s hc => exact .refl s
  | case2 s hc hs => exact .refl s
  | case3 s hc hs first t h rest u hu ih =>
    rw [hu] at ih
    exact ((advances_of_run h).trans (State.advances_advance t)).trans ih
  | case4 s hc hs first t h e u hu ih =>
    rw [hu] at ih
    exact ((advances_of_run h).trans (State.advances_advance t)).trans ih
  | case5 s hc hs e t h ht => exact (advances_of_run h).trans (State.advances_record t e)
  | case6 s hc hs e t h ht ih =>
    exact (((advances_of_run h).trans (State.advances_recover t e)).trans
      (State.advances_advance _)).trans ih

def block (expr : Power → Parse Expr) : Parse Block := do
  let token ← current
  advance
  let inner ← ⟨runInner (statement expr), advances_runInner (statement expr)⟩
  return .mk token inner

end FrontEnd.Parse
