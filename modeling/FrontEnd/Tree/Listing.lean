import FrontEnd.Tree.Render

namespace FrontEnd

structure Entry where
  literal : String
  text : String
  deriving DecidableEq

def Ident.entry (i : Ident) : Entry := ⟨i.token.text, i.value⟩

def Expr.entry (e : Expr) : Entry := ⟨e.token.text, e.render⟩

def Stmt.entry (s : Stmt) : Entry := ⟨s.token.text, s.render⟩

def Block.entry (b : Block) : Entry := ⟨b.token.text, b.render⟩

mutual

def Expr.listing : Expr → List Entry
  | .ident name => [name.entry]
  | .int t v => [Expr.entry (.int t v)]
  | .bool t v => [Expr.entry (.bool t v)]
  | .unary t o right => Expr.entry (.unary t o right) :: right.listing
  | .binary t left o right => Expr.entry (.binary t left o right) :: (left.listing ++ right.listing)
  | .cond t condition consequence none =>
    Expr.entry (.cond t condition consequence none) :: (condition.listing ++ consequence.listing)
  | .cond t condition consequence (some alternative) =>
    Expr.entry (.cond t condition consequence (some alternative)) ::
      (condition.listing ++ consequence.listing ++ alternative.listing)
  | .fn t parameters body =>
    Expr.entry (.fn t parameters body) :: (parameters.map Ident.entry ++ body.listing)
  | .call t function arguments =>
    Expr.entry (.call t function arguments) :: (function.listing ++ Expr.listingList arguments)
termination_by structural e => e

def Expr.listingList : List Expr → List Entry
  | [] => []
  | e :: es => e.listing ++ Expr.listingList es
termination_by structural es => es

def Stmt.listing : Stmt → List Entry
  | .letBinding t name value => Stmt.entry (.letBinding t name value) :: name.entry :: value.listing
  | .ret t value => Stmt.entry (.ret t value) :: value.listing
  | .expr t expression => Stmt.entry (.expr t expression) :: expression.listing
  | .block body => body.listing
termination_by structural s => s

def Stmt.listingList : List Stmt → List Entry
  | [] => []
  | s :: ss => s.listing ++ Stmt.listingList ss
termination_by structural ss => ss

def Block.listing : Block → List Entry
  | .mk t statements => Block.entry (.mk t statements) :: Stmt.listingList statements
termination_by structural b => b

end

def Program.listing (p : Program) : List Entry := Stmt.listingList p.statements

end FrontEnd
