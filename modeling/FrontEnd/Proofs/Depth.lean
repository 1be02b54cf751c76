import FrontEnd.Parse.Program
import FrontEnd.Proofs.Answers
import FrontEnd.Tree.Equality
import FrontEnd.Tree.Path

namespace FrontEnd

/-- Every path down the expression has fewer edges that nest. -/
def Expr.Within (n : Nat) (a : Expr) : Prop := ∀ ks b, a.Path ks b → ks.countP Edge.nests < n

def Stmt.Within (n : Nat) (s : Stmt) : Prop := ∀ a, s.Encloses a → a.Within n

def Block.Within (n : Nat) (x : Block) : Prop := ∀ a, x.Encloses a → a.Within n

theorem Block.within_mk {n : Nat} {t : Token} {ss : List Stmt} (h : ∀ s ∈ ss, s.Within n) :
    (Block.mk t ss).Within n := by
  rintro a ⟨s, hs, ha⟩
  exact h s hs a ha

section

variable {n : Nat} {a b : Expr} {x y : Block} {t : Token} {o : String} {i : Ident}

/-- An edge that nests takes one of the levels, any other edge none. -/
theorem Expr.within_of_children (h : ∀ k b, a.Child k b → b.Within (if k.nests then n else n + 1)) :
    a.Within (n + 1) := by
  intro ks c hp
  cases hp with
  | refl => exact Nat.succ_pos n
  | @step _ b _ k ks hk hp =>
    have hks := h k b hk ks c hp
    rw [List.countP_cons]
    by_cases hn : k.nests = true
    · rw [if_pos hn] at hks ⊢
      exact Nat.succ_lt_succ hks
    · rw [if_neg hn] at hks ⊢
      exact hks

theorem Expr.within_of_leaf (h : ∀ k b, ¬ a.Child k b) : a.Within (n + 1) :=
  within_of_children fun k b hk => absurd hk (h k b)

theorem Expr.Within.succ (h : a.Within n) : a.Within (n + 1) := fun ks b hp =>
  Nat.lt_succ_of_lt (h ks b hp)

theorem Expr.within_unary (h : a.Within n) : (Expr.unary t o a).Within (n + 1) := by
  refine within_of_children fun k c hk => ?_
  cases hk
  exact h

theorem Expr.within_binary (h : a.Within (n + 1)) (k : b.Within n) :
    (Expr.binary t a o b).Within (n + 1) := by
  refine within_of_children fun k c hk => ?_
  cases hk with
  | left => exact h
  | right => exact k

theorem Expr.within_cond (h : a.Within n) (k : x.Within n) :
    (Expr.cond t a x none).Within (n + 1) := by
  refine within_of_children fun k c hk => ?_
  cases hk with
  | condition => exact h
  | consequence hc => exact k c hc

theorem Expr.within_cond_else (h : a.Within n) (k : x.Within n) (l : y.Within n) :
    (Expr.cond t a x (some y)).Within (n + 1) := by
  refine within_of_children fun k c hk => ?_
  cases hk with
  | condition => exact h
  | consequence hc => exact k c hc
  | alternative hc => exact l c hc

theorem Expr.within_fn {is : List Ident} (h : x.Within n) : (Expr.fn t is x).Within (n + 1) := by
  refine within_of_children fun k c hk => ?_
  cases hk with
  | body hc => exact h c hc

theorem Expr.within_call {es : List Expr} (h : a.Within (n + 1)) (k : ∀ e ∈ es, e.Within n) :
    (Expr.call t a es).Within (n + 1) := by
  refine within_of_children fun k c hk => ?_
  cases hk with
  | callee => exact h
  | argument hc => exact k c hc

theorem Stmt.within_letBinding (h : a.Within n) : (Stmt.letBinding t i a).Within n := by
  rintro _ ⟨⟩
  exact h

theorem Stmt.within_ret (h : a.Within n) : (Stmt.ret t a).Within n := by
  rintro _ ⟨⟩
  exact h

theorem Stmt.within_expr (h : a.Within n) : (Stmt.expr t a).Within n := by
  rintro _ ⟨⟩
  exact h

end

namespace Parse

section

variable {expr : Power → Parse Expr} {n : Nat} (h : ∀ c, (expr c).Gives (Expr.Within n))

include h

theorem statement_within : (statement expr).Gives (Stmt.Within n) := by
  refine gives_after fun token => ?_
  split
  · refine gives_after fun token => gives_after fun name => gives_after fun _ => ?_
    refine gives_after fun _ => (h .lowest).bind fun a ha => gives_after fun _ => ?_
    exact gives_pure (Stmt.within_letBinding ha)
  · refine gives_after fun token => gives_after fun _ => (h .lowest).bind fun a ha => ?_
    exact gives_after fun _ => gives_pure (Stmt.within_ret ha)
  · refine gives_after fun token => (h .lowest).bind fun a ha => ?_
    exact gives_after fun _ => gives_pure (Stmt.within_expr ha)

theorem block_within : (block expr).Gives (Block.Within n) :=
  gives_after fun _ => gives_after fun _ =>
    (inner_gives (statement_within h)).bind fun _ hss => gives_pure (Block.within_mk hss)

theorem conditional_within : (conditional expr).Gives (Expr.Within (n + 1)) := by
  refine gives_after fun token => gives_after fun _ => gives_after fun _ => ?_
  refine (h .lowest).bind fun a ha => gives_after fun _ => gives_after fun _ => ?_
  refine (block_within h).bind fun x hx => gives_after fun next => ?_
  split
  · refine gives_after fun _ => gives_after fun _ => (block_within h).bind fun y hy => ?_
    exact gives_pure (Expr.within_cond_else ha hx hy)
  · exact gives_pure (Expr.within_cond ha hx)

theorem function_within : (function expr).Gives (Expr.Within (n + 1)) := by
  refine gives_after fun token => gives_after fun _ => gives_after fun is => gives_after fun _ => ?_
  exact (block_within h).bind fun x hx => gives_pure (Expr.within_fn hx)

theorem prefixed_within : (prefixed expr).Gives (Expr.Within (n + 1)) :=
  gives_after fun _ => gives_after fun _ => (h .unary).bind fun _ ha =>
    gives_pure (Expr.within_unary ha)

/-- Parentheses take a level and leave no edge. -/
theorem grouped_within : (grouped expr).Gives (Expr.Within (n + 1)) :=
  gives_after fun _ => (h .lowest).bind fun _ ha => gives_after fun _ => gives_pure ha.succ

omit h in
theorem primary_within : primary.Gives (Expr.Within (n + 1)) := by
  refine gives_after fun token => ?_
  split
  · split
    · exact gives_pure (Expr.within_of_leaf nofun)
    · exact gives_fail _ _
  · exact gives_pure (Expr.within_of_leaf nofun)
  · exact gives_pure (Expr.within_of_leaf nofun)
  · exact gives_pure (Expr.within_of_leaf nofun)
  · exact gives_refuse

theorem operand_within (rules : Rules) : (operand rules expr).Gives (Expr.Within (n + 1)) := by
  refine gives_after fun token => ?_
  split
  · next rule _ =>
    cases rule with
    | primary => exact primary_within
    | prefixed => exact prefixed_within h
    | grouped => exact grouped_within h
    | conditional => exact conditional_within h
    | function => exact function_within h
  · exact gives_refuse

/-- The expression that is extended stays on its level. -/
theorem operator_within (rule : OperatorRule) (p : Power) {a : Expr} (ha : a.Within (n + 1)) :
    (rule.parse expr p a).Gives (Expr.Within (n + 1)) := by
  cases rule with
  | binary =>
    refine gives_after fun token => gives_after fun _ => (h p).bind fun b hb => ?_
    exact gives_pure (Expr.within_binary ha hb)
  | call =>
    have hargument : (argument expr).Gives (Expr.Within n) := gives_after fun _ => h .lowest
    refine gives_after fun token => (parenthesised_gives hargument).bind fun es hes => ?_
    exact gives_pure (Expr.within_call ha hes)

end

theorem expression_within (rules : Rules) (levels : Nat) (c : Power) :
    (expression rules levels c).Gives (Expr.Within levels) := by
  induction levels generalizing c with
  | zero => exact gives_after fun _ => gives_fail _ _
  | succ levels ih =>
    refine (operand_within ih rules).bind fun a ha => ?_
    exact extend_gives (fun rule p b hb => operator_within ih rule p hb) c ha

end Parse

def Expr.prefixedBy (operators : List Token) (a : Expr) : Expr :=
  operators.foldr (fun t b => .unary t t.text b) a

theorem Expr.path_prefixedBy (ts : List Token) (a : Expr) :
    (prefixedBy ts a).Path (List.replicate ts.length .operand) a := by
  induction ts with
  | nil => exact .refl a
  | cons t ts ih => exact .step .operand ih

/-- On a path down any expression of a program, read with errors or without, at most 63 steps lead
elsewhere than to a left operand or a callee. -/
theorem countP_nests_le (source : String) (file : Option String) (s : Stmt)
    (hs : s ∈ (parse source file).1.statements) (a : Expr) (ha : s.Encloses a) (ks : List Edge)
    (b : Expr) (hp : a.Path ks b) : ks.countP Edge.nests ≤ 63 := by
  have hstmt : (Parse.statement (Parse.expression .standard maxNesting)).Gives
      (Stmt.Within maxNesting) :=
    Parse.statement_within fun c => Parse.expression_within .standard maxNesting c
  have hwithin : s.Within maxNesting := Parse.statements_give hstmt _ s hs
  exact Nat.le_of_lt_succ (hwithin a ha ks b hp)

theorem countP_nests_le_dashes :
    let source := "+;---------------------------------------------------------------x"
    let dash (i : Nat) : Token := ⟨.dash, "-", .cover "shell" (i + 2) 1⟩
    let x : Expr := .ident ⟨⟨.identifier, "x", .cover "shell" 65 1⟩, "x"⟩
    let a : Expr := .prefixedBy ((List.range 63).map dash) x
    let s : Stmt := .expr (dash 0) a
    let ks := List.replicate 63 Edge.operand
    s ∈ (parse source none).1.statements ∧ s.Encloses a ∧ a.Path ks x ∧
      63 ≤ ks.countP Edge.nests ∧ ks.countP Edge.nests ≤ 63 := by
  intro source dash x a s ks
  have hs : s ∈ (parse source none).1.statements := by decide +kernel
  have hp : a.Path ks x := Expr.path_prefixedBy _ x
  exact ⟨hs, .expr _ _, hp, by decide, countP_nests_le source none s hs a (.expr _ _) ks x hp⟩

end FrontEnd
