import FrontEnd.Proofs.Loops
import FrontEnd.Tree.Related

namespace FrontEnd.Parse

/-- Related tokens are alike to parsers under these two sets of rules. -/
structure Likeness (rules rules' : Rules) (R : Token → Token → Prop) : Prop where
  kind {t u : Token} : R t u → t.kind = u.kind
  text {t u : Token} : R t u → t.text = u.text
  operand {t u : Token} : R t u → rules.operand t.kind = rules'.operand u.kind
  operator {t u : Token} : R t u → rules.operator t.kind = rules'.operator u.kind

theorem Likeness.of_kind_text {R : Token → Token → Prop} (rules : Rules)
    (h : ∀ t u, R t u → t.kind = u.kind ∧ t.text = u.text) : Likeness rules rules R where
  kind ht := (h _ _ ht).1
  text ht := (h _ _ ht).2
  operand ht := congrArg _ (h _ _ ht).1
  operator ht := congrArg _ (h _ _ ht).1

/-- A relation between parsers, given a relation between what they answer, that is kept by reading
a token, failing at one, going on and the loops. -/
structure Congruence (rules rules' : Rules) (R : Token → Token → Prop)
    (Q : ∀ {α β : Type}, (α → β → Prop) → Parse α → Parse β → Prop) : Prop
    extends Likeness rules rules' R where
  pure {α β : Type} {ra : α → β → Prop} {a : α} {b : β} : ra a b → Q ra (pure a) (pure b)
  bind {α β γ δ : Type} {ra : α → β → Prop} {rc : γ → δ → Prop} {p : Parse α} {q : Parse β}
    {f : α → Parse γ} {g : β → Parse δ} :
    Q ra p q → (∀ a b, ra a b → Q rc (f a) (g b)) → Q rc (p >>= f) (q >>= g)
  current : Q R current current
  peek : Q R peek peek
  advance : Q Eq advance advance
  fail {α β : Type} {ra : α → β → Prop} {t u : Token} (c : Cause) : R t u →
    Q ra (fail c t.position) (fail c u.position)
  items {α β : Type} {ra : α → β → Prop} {p : Parse α} {q : Parse β} :
    Q ra p q → Q (List.Forall₂ ra) (items p) (items q)
  inner {p q : Parse Stmt} : Q (Stmt.Related R) p q →
    Q (List.Forall₂ (Stmt.Related R)) (inner p) (inner q)
  extend {expr expr' : Power → Parse Expr} :
    (∀ (rule : OperatorRule) p a b, Expr.Related R a b →
      Q (Expr.Related R) (rule.parse expr p a) (rule.parse expr' p b)) →
    ∀ c a b, Expr.Related R a b →
      Q (Expr.Related R) (extend rules expr c a) (extend rules' expr' c b)

namespace Congruence

variable {rules rules' : Rules} {R : Token → Token → Prop}
  {Q : ∀ {α β : Type}, (α → β → Prop) → Parse α → Parse β → Prop}
  {expr expr' : Power → Parse Expr}

theorem expectPeek (C : Congruence rules rules' R Q) (k : TokenKind) :
    Q R (expectPeek k) (expectPeek k) := by
  refine C.bind C.peek fun t u h => ?_
  rw [C.kind h]
  split
  · exact C.bind C.advance fun _ _ _ => C.pure h
  · exact C.fail _ h

theorem skipSemicolon (C : Congruence rules rules' R Q) : Q Eq skipSemicolon skipSemicolon := by
  refine C.bind C.peek fun t u h => ?_
  rw [C.kind h]
  split
  · exact C.advance
  · exact C.pure rfl

theorem refuse (C : Congruence rules rules' R Q) {α β : Type} {ra : α → β → Prop} :
    Q ra refuse refuse := by
  refine C.bind C.current fun t u h => ?_
  rw [C.kind h, C.text h]
  split
  · exact C.fail _ h
  · exact C.fail _ h

theorem primary (C : Congruence rules rules' R Q) : Q (Expr.Related R) primary primary := by
  refine C.bind C.current fun t u h => ?_
  rw [C.kind h, C.text h]
  split
  · split
    · exact C.pure (.int h)
    · exact C.fail _ h
  · exact C.pure (.ident ⟨h, rfl⟩)
  · exact C.pure (.bool h)
  · exact C.pure (.bool h)
  · exact C.refuse

theorem prefixed (C : Congruence rules rules' R Q)
    (h : ∀ c, Q (Expr.Related R) (expr c) (expr' c)) :
    Q (Expr.Related R) (prefixed expr) (prefixed expr') := by
  refine C.bind C.current fun t u ht => C.bind C.advance fun _ _ _ => ?_
  refine C.bind (h .unary) fun a b hab => C.pure ?_
  rw [C.text ht]
  exact .unary ht hab

theorem grouped (C : Congruence rules rules' R Q)
    (h : ∀ c, Q (Expr.Related R) (expr c) (expr' c)) :
    Q (Expr.Related R) (grouped expr) (grouped expr') :=
  C.bind C.advance fun _ _ _ => C.bind (h .lowest) fun _ _ hab =>
    C.bind (C.expectPeek _) fun _ _ _ => C.pure hab

theorem parenthesised (C : Congruence rules rules' R Q) {α β : Type} {ra : α → β → Prop}
    {p : Parse α} {q : Parse β} (h : Q ra p q) :
    Q (List.Forall₂ ra) (parenthesised p) (parenthesised q) := by
  refine C.bind C.peek fun t u ht => ?_
  rw [C.kind ht]
  split
  · exact C.bind C.advance fun _ _ _ => C.pure .nil
  · exact C.bind (C.items h) fun _ _ hab => C.bind (C.expectPeek _) fun _ _ _ => C.pure hab

theorem letStatement (C : Congruence rules rules' R Q)
    (h : ∀ c, Q (Expr.Related R) (expr c) (expr' c)) :
    Q (Stmt.Related R) (letStatement expr) (letStatement expr') := by
  refine C.bind C.current fun t u ht => C.bind (C.expectPeek _) fun i j hij => ?_
  refine C.bind (C.expectPeek _) fun _ _ _ => C.bind C.advance fun _ _ _ => ?_
  refine C.bind (h .lowest) fun a b hab => C.bind C.skipSemicolon fun _ _ _ => ?_
  exact C.pure (.letBinding ht ⟨hij, C.text hij⟩ hab)

theorem returnStatement (C : Congruence rules rules' R Q)
    (h : ∀ c, Q (Expr.Related R) (expr c) (expr' c)) :
    Q (Stmt.Related R) (returnStatement expr) (returnStatement expr') := by
  refine C.bind C.current fun t u ht => C.bind C.advance fun _ _ _ => ?_
  exact C.bind (h .lowest) fun a b hab => C.bind C.skipSemicolon fun _ _ _ => C.pure (.ret ht hab)

theorem expressionStatement (C : Congruence rules rules' R Q)
    (h : ∀ c, Q (Expr.Related R) (expr c) (expr' c)) :
    Q (Stmt.Related R) (expressionStatement expr) (expressionStatement expr') := by
  refine C.bind C.current fun t u ht => C.bind (h .lowest) fun a b hab => ?_
  exact C.bind C.skipSemicolon fun _ _ _ => C.pure (.expr ht hab)

theorem statement (C : Congruence rules rules' R Q)
    (h : ∀ c, Q (Expr.Related R) (expr c) (expr' c)) :
    Q (Stmt.Related R) (statement expr) (statement expr') := by
  refine C.bind C.current fun t u ht => ?_
  rw [C.kind ht]
  split
  · exact C.letStatement h
  · exact C.returnStatement h
  · exact C.expressionStatement h

theorem block (C : Congruence rules rules' R Q)
    (h : ∀ c, Q (Expr.Related R) (expr c) (expr' c)) :
    Q (Block.Related R) (block expr) (block expr') := by
  refine C.bind C.current fun t u ht => C.bind C.advance fun _ _ _ => ?_
  exact C.bind (C.inner (C.statement h)) fun _ _ hab =>
    C.pure (.mk ht (Stmt.relatedList_of_forall₂ hab))

theorem conditional (C : Congruence rules rules' R Q)
    (h : ∀ c, Q (Expr.Related R) (expr c) (expr' c)) :
    Q (Expr.Related R) (conditional expr) (conditional expr') := by
  refine C.bind C.current fun t u ht => C.bind (C.expectPeek _) fun _ _ _ => ?_
  refine C.bind C.advance fun _ _ _ => C.bind (h .lowest) fun a b hab => ?_
  refine C.bind (C.expectPeek _) fun _ _ _ => C.bind (C.expectPeek _) fun _ _ _ => ?_
  refine C.bind (C.block h) fun x y hxy => C.bind C.peek fun v w hvw => ?_
  rw [C.kind hvw]
  split
  · refine C.bind C.advance fun _ _ _ => C.bind (C.expectPeek _) fun _ _ _ => ?_
    exact C.bind (C.block h) fun z z' hz => C.pure (.condElse ht hab hxy hz)
  · exact C.pure (.cond ht hab hxy)

theorem parameter (C : Congruence rules rules' R Q) :
    Q (Ident.Related R) parameter parameter :=
  C.bind (C.expectPeek _) fun _ _ h => C.pure ⟨h, C.text h⟩

theorem function (C : Congruence rules rules' R Q)
    (h : ∀ c, Q (Expr.Related R) (expr c) (expr' c)) :
    Q (Expr.Related R) (function expr) (function expr') := by
  refine C.bind C.current fun t u ht => C.bind (C.expectPeek _) fun _ _ _ => ?_
  refine C.bind (C.parenthesised C.parameter) fun is js hij => ?_
  refine C.bind (C.expectPeek _) fun _ _ _ => C.bind (C.block h) fun x y hxy => ?_
  exact C.pure (.fn ht hij hxy)

theorem argument (C : Congruence rules rules' R Q)
    (h : ∀ c, Q (Expr.Related R) (expr c) (expr' c)) :
    Q (Expr.Related R) (argument expr) (argument expr') :=
  C.bind C.advance fun _ _ _ => h .lowest

theorem operator_parse (C : Congruence rules rules' R Q)
    (h : ∀ c, Q (Expr.Related R) (expr c) (expr' c)) (rule : OperatorRule) (p : Power)
    (a b : Expr) (hab : Expr.Related R a b) :
    Q (Expr.Related R) (rule.parse expr p a) (rule.parse expr' p b) := by
  cases rule with
  | binary =>
    refine C.bind C.current fun t u ht => C.bind C.advance fun _ _ _ => ?_
    refine C.bind (h p) fun c d hcd => C.pure ?_
    rw [C.text ht]
    exact .binary ht hab hcd
  | call =>
    refine C.bind C.current fun t u ht => ?_
    refine C.bind (C.parenthesised (C.argument h)) fun as bs has => C.pure ?_
    exact .call ht hab (Expr.relatedList_of_forall₂ has)

theorem rule_parse (C : Congruence rules rules' R Q)
    (h : ∀ c, Q (Expr.Related R) (expr c) (expr' c)) (rule : OperandRule) :
    Q (Expr.Related R) (rule.parse expr) (rule.parse expr') := by
  cases rule with
  | primary => exact C.primary
  | prefixed => exact C.prefixed h
  | grouped => exact C.grouped h
  | conditional => exact C.conditional h
  | function => exact C.function h

theorem operand_parse (C : Congruence rules rules' R Q)
    (h : ∀ c, Q (Expr.Related R) (expr c) (expr' c)) :
    Q (Expr.Related R) (Parse.operand rules expr) (Parse.operand rules' expr') := by
  refine C.bind C.current fun t u ht => ?_
  rw [C.operand ht]
  split
  · exact C.rule_parse h _
  · exact C.refuse

theorem expression_succ (C : Congruence rules rules' R Q) {levels levels' : Nat}
    (h : ∀ c, Q (Expr.Related R) (expression rules levels c) (expression rules' levels' c))
    (c : Power) :
    Q (Expr.Related R) (expression rules (levels + 1) c) (expression rules' (levels' + 1) c) :=
  C.bind (C.operand_parse h) fun a b hab => C.extend (C.operator_parse h) c a b hab

theorem expression_zero (C : Congruence rules rules' R Q) (c : Power) :
    Q (Expr.Related R) (expression rules 0 c) (expression rules' 0 c) :=
  C.bind C.current fun _ _ h => C.fail _ h

theorem expression (C : Congruence rules rules' R Q) (levels : Nat) (c : Power) :
    Q (Expr.Related R) (expression rules levels c) (expression rules' levels c) := by
  induction levels generalizing c with
  | zero => exact C.expression_zero c
  | succ levels ih => exact C.expression_succ ih c

end Congruence

end FrontEnd.Parse
