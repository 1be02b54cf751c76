import FrontEnd.Tree.Basic
import Mathlib.Data.List.Forall2

namespace FrontEnd

variable (R : Token → Token → Prop)

structure Ident.Related (i j : Ident) : Prop where
  token : R i.token j.token
  value : i.value = j.value

mutual

inductive Expr.Related : Expr → Expr → Prop
  | ident {i j} : Ident.Related R i j → Expr.Related (.ident i) (.ident j)
  | int {t u v} : R t u → Expr.Related (.int t v) (.int u v)
  | bool {t u v} : R t u → Expr.Related (.bool t v) (.bool u v)
  | unary {t u o a b} : R t u → Expr.Related a b → Expr.Related (.unary t o a) (.unary u o b)
  | binary {t u o a b c d} : R t u → Expr.Related a b → Expr.Related c d →
      Expr.Related (.binary t a o c) (.binary u b o d)
  | cond {t u a b x y} : R t u → Expr.Related a b → Block.Related x y →
      Expr.Related (.cond t a x none) (.cond u b y none)
  | condElse {t u a b x y z w} : R t u → Expr.Related a b → Block.Related x y →
      Block.Related z w → Expr.Related (.cond t a x (some z)) (.cond u b y (some w))
  | fn {t u is js x y} : R t u → List.Forall₂ (Ident.Related R) is js → Block.Related x y →
      Expr.Related (.fn t is x) (.fn u js y)
  | call {t u f g as bs} : R t u → Expr.Related f g → Expr.RelatedList as bs →
      Expr.Related (.call t f as) (.call u g bs)

inductive Expr.RelatedList : List Expr → List Expr → Prop
  | nil : Expr.RelatedList [] []
  | cons {a b as bs} : Expr.Related a b → Expr.RelatedList as bs →
      Expr.RelatedList (a :: as) (b :: bs)

inductive Stmt.Related : Stmt → Stmt → Prop
  | letBinding {t u i j a b} : R t u → Ident.Related R i j → Expr.Related a b →
      Stmt.Related (.letBinding t i a) (.letBinding u j b)
  | ret {t u a b} : R t u → Expr.Related a b → Stmt.Related (.ret t a) (.ret u b)
  | expr {t u a b} : R t u → Expr.Related a b → Stmt.Related (.expr t a) (.expr u b)
  | block {x y} : Block.Related x y → Stmt.Related (.block x) (.block y)

inductive Stmt.RelatedList : List Stmt → List Stmt → Prop
  | nil : Stmt.RelatedList [] []
  | cons {a b as bs} : Stmt.Related a b → Stmt.RelatedList as bs →
      Stmt.RelatedList (a :: as) (b :: bs)

inductive Block.Related : Block → Block → Prop
  | mk {t u as bs} : R t u → Stmt.RelatedList as bs → Block.Related (.mk t as) (.mk u bs)

end

variable {R}

theorem Expr.relatedList_of_forall₂ {as bs : List Expr} (h : List.Forall₂ (Expr.Related R) as bs) :
    Expr.RelatedList R as bs := by
  induction h with
  | nil => exact .nil
  | cons h _ ih => exact .cons h ih

theorem Stmt.relatedList_of_forall₂ {as bs : List Stmt} (h : List.Forall₂ (Stmt.Related R) as bs) :
    Stmt.RelatedList R as bs := by
  induction h with
  | nil => exact .nil
  | cons h _ ih => exact .cons h ih

theorem Ident.Related.eq (hR : ∀ t u, R t u → t = u) {i j : Ident} (h : i.Related R j) : i = j := by
  obtain ⟨token, value⟩ := i
  obtain ⟨token', value'⟩ := j
  obtain ⟨ht, hv⟩ := h
  exact congrArg₂ Ident.mk (hR token token' ht) hv

theorem Ident.eq_of_forall₂ (hR : ∀ t u, R t u → t = u) {is js : List Ident}
    (h : List.Forall₂ (Ident.Related R) is js) : is = js := by
  induction h with
  | nil => rfl
  | cons h _ ih => rw [h.eq hR, ih]

mutual

theorem Expr.Related.eq (hR : ∀ t u, R t u → t = u) {a b : Expr} : a.Related R b → a = b
  | .ident h => by rw [h.eq hR]
  | .int h => by rw [hR _ _ h]
  | .bool h => by rw [hR _ _ h]
  | .unary h ha => by rw [hR _ _ h, ha.eq hR]
  | .binary h ha hb => by rw [hR _ _ h, ha.eq hR, hb.eq hR]
  | .cond h ha hx => by rw [hR _ _ h, ha.eq hR, hx.eq hR]
  | .condElse h ha hx hy => by rw [hR _ _ h, ha.eq hR, hx.eq hR, hy.eq hR]
  | .fn h hi hx => by rw [hR _ _ h, Ident.eq_of_forall₂ hR hi, hx.eq hR]
  | .call h ha has => by rw [hR _ _ h, ha.eq hR, has.eq hR]

theorem Expr.RelatedList.eq (hR : ∀ t u, R t u → t = u) {as bs : List Expr} :
    Expr.RelatedList R as bs → as = bs
  | .nil => rfl
  | .cons h hs => by rw [h.eq hR, hs.eq hR]

theorem Stmt.Related.eq (hR : ∀ t u, R t u → t = u) {a b : Stmt} : a.Related R b → a = b
  | .letBinding h hi ha => by rw [hR _ _ h, hi.eq hR, ha.eq hR]
  | .ret h ha => by rw [hR _ _ h, ha.eq hR]
  | .expr h ha => by rw [hR _ _ h, ha.eq hR]
  | .block hx => by rw [hx.eq hR]

theorem Stmt.RelatedList.eq (hR : ∀ t u, R t u → t = u) {as bs : List Stmt} :
    Stmt.RelatedList R as bs → as = bs
  | .nil => rfl
  | .cons h hs => by rw [h.eq hR, hs.eq hR]

theorem Block.Related.eq (hR : ∀ t u, R t u → t = u) {x y : Block} : x.Related R y → x = y
  | .mk h hs => by rw [hR _ _ h, hs.eq hR]

end

end FrontEnd
