import FrontEnd.Tree.Basic

namespace FrontEnd

def commaSeparated (texts : List String) : String := String.intercalate ", " texts

mutual

/-- Operators stand in parentheses, so that the text shows how operands group. -/
def Expr.render : Expr → String
  | .ident name => name.value
  | .int token _ => token.text
  | .bool _ value => if value then "true" else "false"
  | .unary _ operator right => "(" ++ operator ++ right.render ++ ")"
  | .binary _ left operator right =>
    "(" ++ left.render ++ " " ++ operator ++ " " ++ right.render ++ ")"
  | .cond token condition consequence none =>
    token.text ++ " (" ++ condition.render ++ ") " ++ consequence.render
  | .cond token condition consequence (some alternative) =>
    token.text ++ " (" ++ condition.render ++ ") " ++ consequence.render ++ " else "
      ++ alternative.render
  | .fn token parameters body =>
    token.text ++ "(" ++ commaSeparated (parameters.map Ident.value) ++ ") " ++ body.render
  | .call _ function arguments =>
    function.render ++ "(" ++ commaSeparated (Expr.renderList arguments) ++ ")"
termination_by structural e => e

def Expr.renderList : List Expr → List String
  | [] => []
  | e :: es => e.render :: Expr.renderList es
termination_by structural es => es

def Stmt.render : Stmt → String
  | .letBinding token name value => token.text ++ " " ++ name.value ++ " = " ++ value.render ++ ";"
  | .ret token value => token.text ++ " " ++ value.render ++ ";"
  | .expr _ expression => expression.render
  | .block body => body.render
termination_by structural s => s

def Block.render : Block → String
  | .mk _ statements => "\x7b " ++ Stmt.renderInner statements ++ "\x7d"
termination_by structural b => b

/-- The statements of a block. An expression, which has no semicolon of its own, gets one. -/
def Stmt.renderInner : List Stmt → String
  | [] => ""
  | .expr _ expression :: rest => expression.render ++ "; " ++ Stmt.renderInner rest
  | s :: rest => s.render ++ " " ++ Stmt.renderInner rest
termination_by structural ss => ss

end

def Program.render (p : Program) : String := String.join (p.statements.map Stmt.render)

end FrontEnd
