import FrontEnd.Tree.Basic

namespace FrontEnd

inductive Mark where
  | node (token : Token)
  /-- The first token of an expression used as a statement, which stands before those of the
  expression and may be one of them. -/
  | start (token : Token)
  deriving DecidableEq

namespace Mark

def token : Mark → Token
  | node t => t
  | start t => t

def kept? : Mark → Option Token
  | node t => some t
  | start _ => none

end Mark

def Ident.mark (i : Ident) : Mark := .node i.token

mutual

def Expr.marks : Expr → List Mark
  | .ident name => [name.mark]
  | .int t _ => [.node t]
  | .bool t _ => [.node t]
  | .unary t _ right => .node t :: right.marks
  | .binary t left _ right => left.marks ++ .node t :: right.marks
  | .cond t condition consequence none => .node t :: (condition.marks ++ consequence.marks)
  | .cond t condition consequence (some alternative) =>
    .node t :: (condition.marks ++ consequence.marks ++ alternative.marks)
  | .fn t parameters body => .node t :: (parameters.map Ident.mark ++ body.marks)
  | .call t function arguments => function.marks ++ .node t :: Expr.marksList arguments
termination_by structural e => e

def Expr.marksList : List Expr → List Mark
  | [] => []
  | e :: es => e.marks ++ Expr.marksList es
termination_by structural es => es

def Stmt.marks : Stmt → List Mark
  | .letBinding t name value => .node t :: name.mark :: value.marks
  | .ret t value => .node t :: value.marks
  | .expr t expression => .start t :: expression.marks
  | .block body => body.marks
termination_by structural s => s

def Stmt.marksList : List Stmt → List Mark
  | [] => []
  | s :: ss => s.marks ++ Stmt.marksList ss
termination_by structural ss => ss

def Block.marks : Block → List Mark
  | .mk t statements => .node t :: Stmt.marksList statements
termination_by structural b => b

end

namespace Program

def marks (p : Program) : List Mark := Stmt.marksList p.statements

/-- The tokens that the nodes of a program keep. -/
def tokens (p : Program) : List Token := p.marks.filterMap Mark.kept?

end Program

theorem Expr.marks_eq_cons : ∀ e : Expr, ∃ t ms, e.marks = .node t :: ms
  | .ident _ => ⟨_, _, rfl⟩
  | .int _ _ => ⟨_, _, rfl⟩
  | .bool _ _ => ⟨_, _, rfl⟩
  | .unary _ _ _ => ⟨_, _, rfl⟩
  | .binary t left _ right => by
    obtain ⟨u, ms, h⟩ := left.marks_eq_cons
    exact ⟨u, ms ++ .node t :: right.marks, by simp [Expr.marks, h]⟩
  | .cond _ _ _ none => ⟨_, _, rfl⟩
  | .cond _ _ _ (some _) => ⟨_, _, rfl⟩
  | .fn _ _ _ => ⟨_, _, rfl⟩
  | .call t function arguments => by
    obtain ⟨u, ms, h⟩ := function.marks_eq_cons
    exact ⟨u, ms ++ .node t :: Expr.marksList arguments, by simp [Expr.marks, h]⟩
termination_by structural e => e

end FrontEnd
