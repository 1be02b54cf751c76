import FrontEnd.Tree.Basic

namespace FrontEnd

inductive Edge where
  | operand
  | left
  | right
  | condition
  /-- In a statement of a block of the expression. -/
  | inner
  | callee
  | argument
  deriving DecidableEq

/-- A left operand and a callee are extended by what comes behind them. All other expressions are
asked for by the one around them, and each of those is one level further in. -/
def Edge.nests : Edge → Bool
  | left | callee => false
  | _ => true

/-- The expression of a statement. A block has those of its statements. -/
inductive Stmt.Encloses : Stmt → Expr → Prop
  | letBinding (t : Token) (i : Ident) (a : Expr) : Stmt.Encloses (.letBinding t i a) a
  | ret (t : Token) (a : Expr) : Stmt.Encloses (.ret t a) a
  | expr (t : Token) (a : Expr) : Stmt.Encloses (.expr t a) a
  | block {x : Block} {s : Stmt} {a : Expr} : s ∈ x.statements → s.Encloses a →
      Stmt.Encloses (.block x) a

def Block.Encloses (x : Block) (a : Expr) : Prop := ∃ s ∈ x.statements, s.Encloses a

namespace Expr

inductive Child : Expr → Edge → Expr → Prop
  | operand {t o a} : Child (.unary t o a) .operand a
  | left {t a o b} : Child (.binary t a o b) .left a
  | right {t a o b} : Child (.binary t a o b) .right b
  | condition {t a x y} : Child (.cond t a x y) .condition a
  | consequence {t a x y e} : x.Encloses e → Child (.cond t a x y) .inner e
  | alternative {t a x y e} : y.Encloses e → Child (.cond t a x (some y)) .inner e
  | body {t is x e} : x.Encloses e → Child (.fn t is x) .inner e
  | callee {t f es} : Child (.call t f es) .callee f
  | argument {t f es a} : a ∈ es → Child (.call t f es) .argument a

inductive Path : Expr → List Edge → Expr → Prop
  | refl (a : Expr) : Path a [] a
  | step {a b c : Expr} {k : Edge} {ks : List Edge} : a.Child k b → b.Path ks c → Path a (k :: ks) c

end Expr

end FrontEnd
