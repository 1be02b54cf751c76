import FrontEnd.Proofs.Acceptance
import FrontEnd.Proofs.Rereading
import FrontEnd.Tree.Equality

namespace FrontEnd

open Grammar

def unmarked (_ : Token) (_ : Expr) : Token := .eof ⟨0, 0, ""⟩

/-- The tree without the places of its tokens and the tokens of expressions as statements. -/
def Expr.shape (e : Expr) : Expr := e.relabel Token.bare unmarked

def Stmt.shape (s : Stmt) : Stmt := s.relabel Token.bare unmarked

def Block.shape (b : Block) : Block := b.relabel Token.bare unmarked

section

variable (f f' : Token → Token) (g g' : Token → Expr → Token)

def twice (t : Token) (e : Expr) : Token := g' (g t e) (e.relabel f g)

mutual

theorem Expr.relabel_relabel : ∀ e : Expr,
    (e.relabel f g).relabel f' g' = e.relabel (f' ∘ f) (twice f g g')
  | .ident _ => rfl
  | .int _ _ => rfl
  | .bool _ _ => rfl
  | .unary _ _ r => by simp [Expr.relabel, r.relabel_relabel]
  | .binary _ l _ r => by simp [Expr.relabel, l.relabel_relabel, r.relabel_relabel]
  | .cond _ c x none => by simp [Expr.relabel, c.relabel_relabel, x.relabel_relabel]
  | .cond _ c x (some y) => by
    simp [Expr.relabel, c.relabel_relabel, x.relabel_relabel, y.relabel_relabel]
  | .fn _ is x => by
    have his : (is.map (Ident.relabel f)).map (Ident.relabel f') =
        is.map (Ident.relabel (f' ∘ f)) := List.map_map
    simp [Expr.relabel, his, x.relabel_relabel]
  | .call _ e es => by simp [Expr.relabel, e.relabel_relabel, Expr.relabelList_relabelList es]

theorem Expr.relabelList_relabelList : ∀ es : List Expr,
    Expr.relabelList f' g' (Expr.relabelList f g es) =
      Expr.relabelList (f' ∘ f) (twice f g g') es
  | [] => rfl
  | e :: es => by simp [Expr.relabelList, e.relabel_relabel, Expr.relabelList_relabelList es]

theorem Stmt.relabel_relabel : ∀ s : Stmt,
    (s.relabel f g).relabel f' g' = s.relabel (f' ∘ f) (twice f g g')
  | .letBinding _ _ e => by simp [Stmt.relabel, Ident.relabel, e.relabel_relabel]
  | .ret _ e => by simp [Stmt.relabel, e.relabel_relabel]
  | .expr _ e => by simp [Stmt.relabel, twice, e.relabel_relabel]
  | .block b => by simp [Stmt.relabel, b.relabel_relabel]

theorem Block.relabel_relabel : ∀ b : Block,
    (b.relabel f g).relabel f' g' = b.relabel (f' ∘ f) (twice f g g')
  | .mk _ ss => by simp [Block.relabel, Stmt.relabelList_relabelList ss]

theorem Stmt.relabelList_relabelList : ∀ ss : List Stmt,
    Stmt.relabelList f' g' (Stmt.relabelList f g ss) =
      Stmt.relabelList (f' ∘ f) (twice f g g') ss
  | [] => rfl
  | s :: ss => by simp [Stmt.relabelList, s.relabel_relabel, Stmt.relabelList_relabelList ss]

end

end

section

variable (g : Token → Expr → Token)

/-- The shape does not depend on where tokens stand and on those of expressions as statements. -/
theorem Expr.shape_relabel (e : Expr) : (e.relabel Token.bare g).shape = e.shape :=
  e.relabel_relabel Token.bare Token.bare g unmarked

theorem Stmt.shape_relabel (s : Stmt) : (s.relabel Token.bare g).shape = s.shape :=
  s.relabel_relabel Token.bare Token.bare g unmarked

theorem Block.shape_relabel (b : Block) : (b.relabel Token.bare g).shape = b.shape :=
  b.relabel_relabel Token.bare Token.bare g unmarked

end

theorem Expr.render_shape (e : Expr) : e.shape.render = e.render := e.render_relabel Token.text_bare

theorem Stmt.render_shape (s : Stmt) : s.shape.render = s.render := s.render_relabel Token.text_bare

theorem Block.render_shape (b : Block) : b.shape.render = b.render :=
  b.render_relabel Token.text_bare

namespace Grammar

variable {ts : List Token} {n n' : Nat}

theorem Clause.unique {s s' : Stmt} (h : Clause ts s n) (h' : Clause ts s' n') : s = s' := by
  have hend : ¬ Continues [] := by simp [Continues]
  have hs := (Clauses.bare h hend .nil).unique (.bare h' hend .nil)
  exact (List.cons.inj hs).1

theorem Phrase.unique {p : Power} {e e' : Expr} (h : Phrase p ts e n) (h' : Phrase p ts e' n') :
    e = e' := by
  obtain ⟨t, us, rfl, -⟩ := h.starts
  have hs := (Clause.expr (h.lower (lowest_le p))).unique (.expr (h'.lower (lowest_le p)))
  exact (Stmt.expr.inj hs).2

/-- The tokens of a block spell a function without parameters, if those of its head come before. -/
theorem Body.unique {b b' : Block} (h : Body ts b n) (h' : Body ts b' n') : b = b' := by
  have hf := Primary.fn (t := fixedToken .fnWord) (o := fixedToken .openParen)
    (c := fixedToken .closeParen) rfl rfl .none rfl h
  have hf' := Primary.fn (t := fixedToken .fnWord) (o := fixedToken .openParen)
    (c := fixedToken .closeParen) rfl rfl .none rfl h'
  exact (Expr.fn.inj ((Phrase.primary hf).unique (.primary hf'))).2.2

end Grammar

theorem eq_of_respelled {α : Type} (Spells : List Token → α → Nat → Prop) (strip : α → α)
    (hone : ∀ {ts a b n m}, Spells ts a n → Spells ts b m → a = b) {text text' : String} {x y : α}
    {n m : Nat} (htext : text = text')
    (hx : ∀ ts : List Token, ts.map Token.bare = spelled text → ∃ a, Spells ts a n ∧ strip a = x)
    (hy : ∀ ts : List Token, ts.map Token.bare = spelled text' → ∃ b, Spells ts b m ∧ strip b = y) :
    x = y := by
  subst htext
  obtain ⟨a, ha, rfl⟩ := hx (scan "" 0 text.toList) rfl
  obtain ⟨b, hb, rfl⟩ := hy (scan "" 0 text.toList) rfl
  rw [hone ha hb]

theorem Expr.shape_of_render {e e' : Expr} (h : e.wellFormed = true) (h' : e'.wellFormed = true)
    (hr : e.render = e'.render) : e.shape = e'.shape := by
  have hc : e.relabel Token.bare lead = e'.relabel Token.bare lead :=
    eq_of_respelled (Phrase .call) (Expr.relabel Token.bare placeless) Phrase.unique hr
      (fun _ => e.rereads h) (fun _ => e'.rereads h')
  rw [← e.shape_relabel lead, hc, e'.shape_relabel]

theorem Stmt.shape_of_clause {s s' : Stmt} (h : s.wellFormed = true) (h' : s'.wellFormed = true)
    (hr : s.clause = s'.clause) : s.shape = s'.shape := by
  have hc : s.relabel Token.bare lead = s'.relabel Token.bare lead :=
    eq_of_respelled Clause (Stmt.relabel Token.bare placeless) Clause.unique hr
      (fun _ => s.rereads h) (fun _ => s'.rereads h')
  rw [← s.shape_relabel lead, hc, s'.shape_relabel]

theorem Block.shape_of_render {b b' : Block} (h : b.wellFormed = true) (h' : b'.wellFormed = true)
    (hr : b.render = b'.render) : b.shape = b'.shape := by
  have hc : b.relabel Token.bare lead = b'.relabel Token.bare lead :=
    eq_of_respelled Body (Block.relabel Token.bare placeless) Body.unique hr
      (fun _ => b.rereads h) (fun _ => b'.rereads h')
  rw [← b.shape_relabel lead, hc, b'.shape_relabel]

theorem clause_of_render {s s' : Stmt} (h : s.isEnded = true) (h' : s'.isEnded = true)
    (hr : s.render = s'.render) : s.clause = s'.clause := by
  rw [render_of_isEnded h, render_of_isEnded h'] at hr
  exact (String.append_left_inj ";").1 hr

/-- Two expressions have the same rendering if and only if they have the same shape, and so have two
bindings or returns and two blocks. -/
theorem render_unambiguous :
    (∀ e e' : Expr, e.wellFormed = true → e'.wellFormed = true →
      (e.render = e'.render ↔ e.shape = e'.shape)) ∧
    (∀ s s' : Stmt, s.wellFormed = true → s'.wellFormed = true → s.isEnded = true →
      s'.isEnded = true → (s.render = s'.render ↔ s.shape = s'.shape)) ∧
    ∀ b b' : Block, b.wellFormed = true → b'.wellFormed = true →
      (b.render = b'.render ↔ b.shape = b'.shape) := by
  refine ⟨?_, ?_, ?_⟩
  · intro e e' h h'
    refine ⟨Expr.shape_of_render h h', fun hs => ?_⟩
    rw [← e.render_shape, hs, e'.render_shape]
  · intro s s' h h' hend hend'
    refine ⟨fun hr => ?_, fun hs => ?_⟩
    · exact Stmt.shape_of_clause h h' (clause_of_render hend hend' hr)
    · rw [← s.render_shape, hs, s'.render_shape]
  · intro b b' h h'
    refine ⟨Block.shape_of_render h h', fun hs => ?_⟩
    rw [← b.render_shape, hs, b'.render_shape]

theorem render_unambiguous_layouts :
    let block (source : String) : Block :=
      .mk (fixedToken .openCurly) (parse source none).1.statements
    let b := block "let y = a + b * 2; if (-y) \x7b \x7d else \x7b return !x \x7d f(x)(1, g)"
    let b' := block "let y=(a+(b*2)) if((-y))\x7b\x7delse\x7breturn(!x);\x7d;(f(x))(1,(g));"
    let e : Expr := .fn (fixedToken .fnWord) [] b
    let e' : Expr := .fn (fixedToken .fnWord) [] b'
    let s : Stmt := .ret (fixedToken .returnWord) e
    let s' : Stmt := .ret (fixedToken .returnWord) e'
    (e.wellFormed = true ∧ e'.wellFormed = true ∧ e ≠ e' ∧ e.render = e'.render ∧
      e.shape = e'.shape) ∧
    (s.wellFormed = true ∧ s'.wellFormed = true ∧ s.isEnded = true ∧ s'.isEnded = true ∧ s ≠ s' ∧
      s.render = s'.render ∧ s.shape = s'.shape) ∧
    b.wellFormed = true ∧ b'.wellFormed = true ∧ b ≠ b' ∧ b.render = b'.render ∧
      b.shape = b'.shape := by
  intro block b b' e e' s s'
  obtain ⟨hexpr, hstmt, hblock⟩ := render_unambiguous
  obtain ⟨hb, hb', hne, hbr⟩ :
      b.wellFormed = true ∧ b'.wellFormed = true ∧ b ≠ b' ∧ b.render = b'.render := by
    decide +kernel
  have hfn : (fixedToken .fnWord).fits [.fnWord] = true := by decide
  have hret : (fixedToken .returnWord).fits [.returnWord] = true := by decide
  have he : e.wellFormed = true := by simp [e, Expr.wellFormed, hfn, hb]
  have he' : e'.wellFormed = true := by simp [e', Expr.wellFormed, hfn, hb']
  have hene : e ≠ e' := fun h => hne (Expr.fn.inj h).2.2
  have her : e.render = e'.render := by simp [e, e', Expr.render, hbr]
  have hs : s.wellFormed = true := by simp [s, Stmt.wellFormed, hret, he]
  have hs' : s'.wellFormed = true := by simp [s', Stmt.wellFormed, hret, he']
  have hsne : s ≠ s' := fun h => hene (Stmt.ret.inj h).2
  have hsr : s.render = s'.render := by simp [s, s', Stmt.render, her]
  exact ⟨⟨he, he', hene, her, (hexpr e e' he he').1 her⟩,
    ⟨hs, hs', rfl, rfl, hsne, hsr, (hstmt s s' hs hs' rfl rfl).1 hsr⟩,
    hb, hb', hne, hbr, (hblock b b' hb hb').1 hbr⟩

end FrontEnd
