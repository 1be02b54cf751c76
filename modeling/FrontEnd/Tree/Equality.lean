import FrontEnd.Tree.Basic

namespace FrontEnd

mutual

def Expr.same : Expr → Expr → Bool
  | .ident m, .ident n => m = n
  | .int t m, .int u n => t = u && m = n
  | .bool t a, .bool u b => t = u && a = b
  | .unary t o a, .unary u p b => t = u && o = p && a.same b
  | .binary t a o b, .binary u c p d => t = u && o = p && a.same c && b.same d
  | .cond t a x none, .cond u b y none => t = u && a.same b && x.same y
  | .cond t a x (some z), .cond u b y (some w) => t = u && a.same b && x.same y && z.same w
  | .fn t ps x, .fn u qs y => t = u && ps = qs && x.same y
  | .call t f xs, .call u g ys => t = u && f.same g && Expr.sameList xs ys
  | _, _ => false
termination_by structural e => e

def Expr.sameList : List Expr → List Expr → Bool
  | [], [] => true
  | a :: xs, b :: ys => a.same b && Expr.sameList xs ys
  | _, _ => false
termination_by structural es => es

def Stmt.same : Stmt → Stmt → Bool
  | .letBinding t m a, .letBinding u n b => t = u && m = n && a.same b
  | .ret t a, .ret u b => t = u && a.same b
  | .expr t a, .expr u b => t = u && a.same b
  | .block x, .block y => x.same y
  | _, _ => false
termination_by structural s => s

def Stmt.sameList : List Stmt → List Stmt → Bool
  | [], [] => true
  | a :: xs, b :: ys => a.same b && Stmt.sameList xs ys
  | _, _ => false
termination_by structural ss => ss

def Block.same : Block → Block → Bool
  | .mk t xs, .mk u ys => t = u && Stmt.sameList xs ys
termination_by structural b => b

end

mutual

theorem Expr.same_iff : ∀ a b : Expr, a.same b = true ↔ a = b
  | .ident m, b => by cases b <;> simp [Expr.same]
  | .int t m, b => by cases b <;> simp [Expr.same]
  | .bool t v, b => by cases b <;> simp [Expr.same]
  | .unary t o a, b => by
    cases b <;> simp [Expr.same, Expr.same_iff a, and_assoc]
  | .binary t a o c, b => by
    cases b <;> simp [Expr.same, Expr.same_iff a, Expr.same_iff c, and_assoc, and_left_comm]
  | .cond t a x none, b => by
    cases b with
    | cond u c y w => cases w <;> simp [Expr.same, Expr.same_iff a, Block.same_iff x, and_assoc]
    | _ => simp [Expr.same]
  | .cond t a x (some z), b => by
    cases b with
    | cond u c y w =>
      cases w <;> simp [Expr.same, Expr.same_iff a, Block.same_iff x, Block.same_iff z, and_assoc]
    | _ => simp [Expr.same]
  | .fn t ps x, b => by
    cases b <;> simp [Expr.same, Block.same_iff x, and_assoc]
  | .call t f xs, b => by
    cases b <;> simp [Expr.same, Expr.same_iff f, Expr.sameList_iff xs, and_assoc]
termination_by structural a => a

theorem Expr.sameList_iff : ∀ xs ys : List Expr, Expr.sameList xs ys = true ↔ xs = ys
  | [], ys => by cases ys <;> simp [Expr.sameList]
  | a :: xs, ys => by cases ys <;> simp [Expr.sameList, Expr.same_iff a, Expr.sameList_iff xs]
termination_by structural xs => xs

theorem Stmt.same_iff : ∀ a b : Stmt, a.same b = true ↔ a = b
  | .letBinding t m v, b => by cases b <;> simp [Stmt.same, Expr.same_iff v, and_assoc]
  | .ret t v, b => by cases b <;> simp [Stmt.same, Expr.same_iff v]
  | .expr t v, b => by cases b <;> simp [Stmt.same, Expr.same_iff v]
  | .block x, b => by cases b <;> simp [Stmt.same, Block.same_iff x]
termination_by structural a => a

theorem Stmt.sameList_iff : ∀ xs ys : List Stmt, Stmt.sameList xs ys = true ↔ xs = ys
  | [], ys => by cases ys <;> simp [Stmt.sameList]
  | a :: xs, ys => by cases ys <;> simp [Stmt.sameList, Stmt.same_iff a, Stmt.sameList_iff xs]
termination_by structural xs => xs

theorem Block.same_iff : ∀ a b : Block, a.same b = true ↔ a = b
  | .mk t xs, .mk u ys => by simp [Block.same, Stmt.sameList_iff xs]
termination_by structural a => a

end

instance : DecidableEq Expr := fun a b => decidable_of_iff _ (Expr.same_iff a b)

instance : DecidableEq Stmt := fun a b => decidable_of_iff _ (Stmt.same_iff a b)

instance : DecidableEq Block := fun a b => decidable_of_iff _ (Block.same_iff a b)

deriving instance DecidableEq for Program

end FrontEnd
