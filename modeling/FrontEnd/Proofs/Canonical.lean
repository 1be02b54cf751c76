import FrontEnd.Proofs.Scanning
import FrontEnd.Tree.Render

namespace FrontEnd

mutual

/-- How many expressions stand inside one another at the deepest place of the rendering. -/
def Expr.depth : Expr → Nat
  | .ident _ | .int _ _ | .bool _ _ => 1
  | .unary _ _ right => 2 + right.depth
  | .binary _ left _ right => max (1 + left.depth) (2 + right.depth)
  | .cond _ condition consequence none => max 1 (max (1 + condition.depth) (1 + consequence.depth))
  | .cond _ condition consequence (some alternative) =>
    max 1 (max (1 + condition.depth) (max (1 + consequence.depth) (1 + alternative.depth)))
  | .fn _ _ body => max 1 (1 + body.depth)
  | .call _ function arguments => max function.depth (Expr.depthList arguments)
termination_by structural e => e

def Expr.depthList : List Expr → Nat
  | [] => 0
  | e :: es => max (1 + e.depth) (Expr.depthList es)
termination_by structural es => es

def Stmt.depth : Stmt → Nat
  | .letBinding _ _ value => value.depth
  | .ret _ value => value.depth
  | .expr _ expression => expression.depth
  | .block body => body.depth
termination_by structural s => s

def Block.depth : Block → Nat
  | .mk _ statements => Stmt.depthList statements
termination_by structural b => b

def Stmt.depthList : List Stmt → Nat
  | [] => 0
  | s :: ss => max s.depth (Stmt.depthList ss)
termination_by structural ss => ss

end

section

variable (t : Token) (operator : String) (l r : Expr) (b d : Block) (ps : List Ident)
  (es : List Expr)

theorem Expr.depth_unary : (Expr.unary t operator r).depth = r.depth + 1 + 1 := by
  change 2 + r.depth = _
  omega

theorem Expr.depth_binary :
    (Expr.binary t l operator r).depth = max l.depth (r.depth + 1) + 1 := by
  change max (1 + l.depth) (2 + r.depth) = _
  omega

theorem Expr.depth_cond : (Expr.cond t l b none).depth = max l.depth b.depth + 1 := by
  change max 1 (max (1 + l.depth) (1 + b.depth)) = _
  omega

theorem Expr.depth_cond_else :
    (Expr.cond t l b (some d)).depth = max l.depth (max b.depth d.depth) + 1 := by
  change max 1 (max (1 + l.depth) (max (1 + b.depth) (1 + d.depth))) = _
  omega

theorem Expr.depth_fn : (Expr.fn t ps b).depth = b.depth + 1 := by
  change max 1 (1 + b.depth) = _
  omega

theorem Expr.depth_call : (Expr.call t l es).depth = max l.depth (Expr.depthList es) := rfl

theorem Expr.depthList_cons : Expr.depthList (l :: es) = max (l.depth + 1) (Expr.depthList es) := by
  change max (1 + l.depth) _ = _
  rw [Nat.add_comm]

theorem Expr.depthList_singleton : Expr.depthList [l] = l.depth + 1 := by
  rw [Expr.depthList_cons]
  exact Nat.max_zero _

end

def Ident.relabel (f : Token → Token) (i : Ident) : Ident := ⟨f i.token, i.value⟩

mutual

/-- The tree with other tokens. Those of expressions as statements may depend on the expression. -/
def Expr.relabel (f : Token → Token) (g : Token → Expr → Token) : Expr → Expr
  | .ident name => .ident (name.relabel f)
  | .int token value => .int (f token) value
  | .bool token value => .bool (f token) value
  | .unary token operator right => .unary (f token) operator (right.relabel f g)
  | .binary token left operator right =>
    .binary (f token) (left.relabel f g) operator (right.relabel f g)
  | .cond token condition consequence none =>
    .cond (f token) (condition.relabel f g) (consequence.relabel f g) none
  | .cond token condition consequence (some alternative) =>
    .cond (f token) (condition.relabel f g) (consequence.relabel f g)
      (some (alternative.relabel f g))
  | .fn token parameters body =>
    .fn (f token) (parameters.map (Ident.relabel f)) (body.relabel f g)
  | .call token function arguments =>
    .call (f token) (function.relabel f g) (Expr.relabelList f g arguments)
termination_by structural e => e

def Expr.relabelList (f : Token → Token) (g : Token → Expr → Token) : List Expr → List Expr
  | [] => []
  | e :: es => e.relabel f g :: Expr.relabelList f g es
termination_by structural es => es

def Stmt.relabel (f : Token → Token) (g : Token → Expr → Token) : Stmt → Stmt
  | .letBinding token name value => .letBinding (f token) (name.relabel f) (value.relabel f g)
  | .ret token value => .ret (f token) (value.relabel f g)
  | .expr token expression => .expr (g token expression) (expression.relabel f g)
  | .block body => .block (body.relabel f g)
termination_by structural s => s

def Block.relabel (f : Token → Token) (g : Token → Expr → Token) : Block → Block
  | .mk token statements => .mk (f token) (Stmt.relabelList f g statements)
termination_by structural b => b

def Stmt.relabelList (f : Token → Token) (g : Token → Expr → Token) : List Stmt → List Stmt
  | [] => []
  | s :: ss => s.relabel f g :: Stmt.relabelList f g ss
termination_by structural ss => ss

end

section

variable {f : Token → Token} {g : Token → Expr → Token}

mutual

theorem Expr.render_relabel (hf : ∀ t, (f t).text = t.text) :
    ∀ e : Expr, (e.relabel f g).render = e.render
  | .ident name => rfl
  | .int t v => hf t
  | .bool t v => rfl
  | .unary t o r => by simp [Expr.relabel, Expr.render, r.render_relabel hf]
  | .binary t l o r => by
    simp [Expr.relabel, Expr.render, l.render_relabel hf, r.render_relabel hf]
  | .cond t c x none => by
    simp [Expr.relabel, Expr.render, hf t, c.render_relabel hf, x.render_relabel hf]
  | .cond t c x (some y) => by
    simp [Expr.relabel, Expr.render, hf t, c.render_relabel hf, x.render_relabel hf,
      y.render_relabel hf]
  | .fn t is x => by
    have his : (is.map (Ident.relabel f)).map Ident.value = is.map Ident.value := by
      simp [Ident.relabel]
    simp [Expr.relabel, Expr.render, hf t, x.render_relabel hf, his]
  | .call t e es => by
    simp [Expr.relabel, Expr.render, e.render_relabel hf, Expr.renderList_relabel hf es]

theorem Expr.renderList_relabel (hf : ∀ t, (f t).text = t.text) :
    ∀ es : List Expr, Expr.renderList (Expr.relabelList f g es) = Expr.renderList es
  | [] => rfl
  | e :: es => by
    simp [Expr.relabelList, Expr.renderList, e.render_relabel hf, Expr.renderList_relabel hf es]

theorem Stmt.render_relabel (hf : ∀ t, (f t).text = t.text) :
    ∀ s : Stmt, (s.relabel f g).render = s.render
  | .letBinding t i e => by
    simp [Stmt.relabel, Stmt.render, hf t, Ident.relabel, e.render_relabel hf]
  | .ret t e => by simp [Stmt.relabel, Stmt.render, hf t, e.render_relabel hf]
  | .expr t e => by simp [Stmt.relabel, Stmt.render, e.render_relabel hf]
  | .block b => by simp [Stmt.relabel, Stmt.render, b.render_relabel hf]

theorem Block.render_relabel (hf : ∀ t, (f t).text = t.text) :
    ∀ b : Block, (b.relabel f g).render = b.render
  | .mk t ss => by simp [Block.relabel, Block.render, Stmt.renderInner_relabel hf ss]

theorem Stmt.renderInner_relabel (hf : ∀ t, (f t).text = t.text) :
    ∀ ss : List Stmt, Stmt.renderInner (Stmt.relabelList f g ss) = Stmt.renderInner ss
  | [] => rfl
  | .letBinding t i e :: ss => by
    simp [Stmt.relabelList, Stmt.relabel, Stmt.renderInner, Stmt.render, hf t, Ident.relabel,
      e.render_relabel hf, Stmt.renderInner_relabel hf ss]
  | .ret t e :: ss => by
    simp [Stmt.relabelList, Stmt.relabel, Stmt.renderInner, Stmt.render, hf t,
      e.render_relabel hf, Stmt.renderInner_relabel hf ss]
  | .expr t e :: ss => by
    simp [Stmt.relabelList, Stmt.relabel, Stmt.renderInner, e.render_relabel hf,
      Stmt.renderInner_relabel hf ss]
  | .block b :: ss => by
    simp [Stmt.relabelList, Stmt.relabel, Stmt.renderInner, Stmt.render, b.render_relabel hf,
      Stmt.renderInner_relabel hf ss]

end

end

def placeless (t : Token) (_ : Expr) : Token := t.bare

def lead (t : Token) (e : Expr) : Token := (spelled e.render).headD t.bare

def Program.bare (p : Program) : Program := ⟨Stmt.relabelList Token.bare placeless p.statements⟩

/-- The program without the places of its tokens, where the token of an expression as a statement
is the first one of its rendering. -/
def Program.canonical (p : Program) : Program := ⟨Stmt.relabelList Token.bare lead p.statements⟩

end FrontEnd
