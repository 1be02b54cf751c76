import FrontEnd.Tree.Basic

namespace FrontEnd

mutual

def Expr.statementCount : Expr → Nat
  | .ident _ => 0
  | .int _ _ => 0
  | .bool _ _ => 0
  | .unary _ _ right => right.statementCount
  | .binary _ left _ right => left.statementCount + right.statementCount
  | .cond _ condition consequence none =>
    condition.statementCount + consequence.statementCount
  | .cond _ condition consequence (some alternative) =>
    condition.statementCount + consequence.statementCount + alternative.statementCount
  | .fn _ _ body => body.statementCount
  | .call _ function arguments => function.statementCount + Expr.statementCountList arguments
termination_by structural e => e

def Expr.statementCountList : List Expr → Nat
  | [] => 0
  | e :: es => e.statementCount + Expr.statementCountList es
termination_by structural es => es

def Stmt.innerCount : Stmt → Nat
  | .letBinding _ _ value => value.statementCount
  | .ret _ value => value.statementCount
  | .expr _ expression => expression.statementCount
  | .block body => body.statementCount
termination_by structural s => s

def Stmt.statementCountList : List Stmt → Nat
  | [] => 0
  | s :: ss => s.innerCount + 1 + Stmt.statementCountList ss
termination_by structural ss => ss

def Block.statementCount : Block → Nat
  | .mk _ statements => Stmt.statementCountList statements
termination_by structural b => b

end

def Program.statementCount (p : Program) : Nat := Stmt.statementCountList p.statements

end FrontEnd
