import FrontEnd.Parse.Statement
import FrontEnd.Rule.Basic
import FrontEnd.Text.Decimal

namespace FrontEnd

/-- How many expressions may be open at once. -/
def maxNesting : Nat := 64

namespace Parse

def refuse {α : Type} : Parse α := do
  let token ← current
  if token.kind = .illegal then fail (.unrecognised token.text) token.position
  else fail (.noOperand token.kind) token.position

def primary : Parse Expr := do
  let token ← current
  match token.kind with
  | .int =>
    match Text.integer? token.text.toList with
    | some value => return .int token value
    | none => fail (.badInteger token.text) token.position
  | .identifier => return .ident ⟨token, token.text⟩
  | .trueWord => return .bool token true
  | .falseWord => return .bool token false
  | _ => refuse

def prefixed (expr : Power → Parse Expr) : Parse Expr := do
  let token ← current
  advance
  let right ← expr .unary
  return .unary token token.text right

def grouped (expr : Power → Parse Expr) : Parse Expr := do
  advance
  let inner ← expr .lowest
  let _ ← expectPeek .closeParen
  return inner

def conditional (expr : Power → Parse Expr) : Parse Expr := do
  let token ← current
  let _ ← expectPeek .openParen
  advance
  let condition ← expr .lowest
  let _ ← expectPeek .closeParen
  let _ ← expectPeek .openCurly
  let consequence ← block expr
  let next ← peek
  if next.kind = .elseWord then
    advance
    let _ ← expectPeek .openCurly
    let alternative ← block expr
    return .cond token condition consequence (some alternative)
  else return .cond token condition consequence none

def parameter : Parse Ident := do
  let name ← expectPeek .identifier
  return ⟨name, name.text⟩

def function (expr : Power → Parse Expr) : Parse Expr := do
  let token ← current
  let _ ← expectPeek .openParen
  let parameters ← parenthesised parameter
  let _ ← expectPeek .openCurly
  let body ← block expr
  return .fn token parameters body

def argument (expr : Power → Parse Expr) : Parse Expr := do
  advance
  expr .lowest

def call (expr : Power → Parse Expr) (callee : Expr) : Parse Expr := do
  let token ← current
  let arguments ← parenthesised (argument expr)
  return .call token callee arguments

def binary (expr : Power → Parse Expr) (power : Power) (left : Expr) : Parse Expr := do
  let token ← current
  advance
  let right ← expr power
  return .binary token left token.text right

end Parse

def OperandRule.parse (expr : Power → Parse Expr) : OperandRule → Parse Expr
  | .primary => Parse.primary
  | .prefixed => Parse.prefixed expr
  | .grouped => Parse.grouped expr
  | .conditional => Parse.conditional expr
  | .function => Parse.function expr

def OperatorRule.parse (expr : Power → Parse Expr) (power : Power) (left : Expr) :
    OperatorRule → Parse Expr
  | .binary => Parse.binary expr power left
  | .call => Parse.call expr left

namespace Parse

def operand (rules : Rules) (expr : Power → Parse Expr) : Parse Expr := do
  let token ← current
  match rules.operand token.kind with
  | some rule => rule.parse expr
  | none => refuse

/-- Extends an expression while the next operator binds tighter than the ceiling. An expression
ends on a token of the input, so behind the last one nothing is extended. -/
def runExtend (rules : Rules) (expr : Power → Parse Expr) (ceiling : Power) (left : Expr)
    (s : State) : Except SyntaxError Expr × State :=
  if _hs : s.rest = [] then (.ok left, s)
  else
    match rules.operator s.peek.kind with
    | none => (.ok left, s)
    | some (power, rule) =>
      if ceiling < power then
        match _h : (rule.parse expr power left).run s.advance with
        | (.ok wider, t) => runExtend rules expr ceiling wider t
        | (.error e, t) => (.error e, t)
      else (.ok left, s)
termination_by s.rest.length
decreasing_by
  have hle := (advances_of_run _h).length_le
  have hlt := (State.Advances.refl s).length_advance_lt _hs
  omega

theorem advances_runExtend (rules : Rules) (expr : Power → Parse Expr) (ceiling : Power)
    (left : Expr) (s : State) : s.Advances (runExtend rules expr ceiling left s).2 := by
  fun_induction runExtend rules expr ceiling left s with
  | case1 left s hs => exact .refl s
  | case2 left s hs hr => exact .refl s
  | case3 left s hs power rule hr hp wider t h ih =>
    exact ((State.advances_advance s).trans (advances_of_run h)).trans ih
  | case4 left s hs power rule hr hp e t h =>
    exact (State.advances_advance s).trans (advances_of_run h)
  | case5 left s hs power rule hr hp => exact .refl s

def extend (rules : Rules) (expr : Power → Parse Expr) (ceiling : Power) (left : Expr) :
    Parse Expr :=
  ⟨runExtend rules expr ceiling left, advances_runExtend rules expr ceiling left⟩

/-- An expression of operators that bind tighter than the ceiling, if so many levels of nesting
are left. -/
def expression (rules : Rules) : Nat → Power → Parse Expr
  | 0, _ => do
    let token ← current
    fail (.tooDeep maxNesting) token.position
  | levels + 1, ceiling => do
    let left ← operand rules (expression rules levels)
    extend rules (expression rules levels) ceiling left

end Parse

end FrontEnd
