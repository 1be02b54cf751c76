import FrontEnd.Token.Basic

namespace FrontEnd

structure Ident where
  token : Token
  value : String
  deriving DecidableEq

mutual

/-- Every node keeps the token it was built from. Grouping parentheses leave no node. -/
inductive Expr where
  | ident (name : Ident)
  | int (token : Token) (value : Int64)
  | bool (token : Token) (value : Bool)
  | unary (token : Token) (operator : String) (right : Expr)
  | binary (token : Token) (left : Expr) (operator : String) (right : Expr)
  | cond (token : Token) (condition : Expr) (consequence : Block) (alternative : Option Block)
  | fn (token : Token) (parameters : List Ident) (body : Block)
  /-- The token of a call is the parenthesis that opens its arguments. -/
  | call (token : Token) (function : Expr) (arguments : List Expr)

inductive Stmt where
  | letBinding (token : Token) (name : Ident) (value : Expr)
  | ret (token : Token) (value : Expr)
  /-- An expression used as a statement, with its first token. -/
  | expr (token : Token) (expression : Expr)
  | block (body : Block)

inductive Block where
  | mk (token : Token) (statements : List Stmt)

end

structure Program where
  statements : List Stmt

namespace Expr

def token : Expr → Token
  | ident name => name.token
  | int token _ => token
  | bool token _ => token
  | unary token _ _ => token
  | binary token _ _ _ => token
  | cond token _ _ _ => token
  | fn token _ _ => token
  | call token _ _ => token

end Expr

namespace Block

def token : Block → Token
  | mk token _ => token

def statements : Block → List Stmt
  | mk _ statements => statements

end Block

namespace Stmt

def token : Stmt → Token
  | letBinding token _ _ => token
  | ret token _ => token
  | expr token _ => token
  | block body => body.token

end Stmt

namespace Program

def literal (p : Program) : String := (p.statements.head?.map (·.token.text)).getD ""

end Program

end FrontEnd
