import FrontEnd.Proofs.Loops

namespace FrontEnd.Parse

variable {α β : Type} {expr : Power → Parse Expr} {s t : State}

theorem yields_primary {e : Expr} :
    primary.Yields s e t ↔ t = s ∧
      (s.current.kind = .int ∧ (∃ v, Text.integer? s.current.text.toList = some v ∧
          e = .int s.current v) ∨
        s.current.kind = .identifier ∧ e = .ident ⟨s.current, s.current.text⟩ ∨
        s.current.kind = .trueWord ∧ e = .bool s.current true ∨
        s.current.kind = .falseWord ∧ e = .bool s.current false) := by
  unfold primary
  rw [yields_bind]
  simp only [yields_current, and_assoc, exists_and_left, exists_eq_left]
  split
  · next hk =>
    split
    · next v hv => simp [hk, hv, and_comm]
    · next hv => simp [hk, hv]
  · next hk => simp [hk, and_comm]
  · next hk => simp [hk, and_comm]
  · next hk => simp [hk, and_comm]
  · next hi hn ht hf =>
    refine iff_of_false not_yields_refuse ?_
    rintro ⟨-, ⟨hk, -⟩ | ⟨hk, -⟩ | ⟨hk, -⟩ | ⟨hk, -⟩⟩
    · exact hi hk
    · exact hn hk
    · exact ht hk
    · exact hf hk

theorem yields_prefixed {e : Expr} :
    (prefixed expr).Yields s e t ↔
      ∃ r, (expr .unary).Yields s.advance r t ∧ e = .unary s.current s.current.text r := by
  simp [prefixed, yields_bind, and_assoc]

theorem yields_grouped {e : Expr} :
    (grouped expr).Yields s e t ↔
      ∃ u, (expr .lowest).Yields s.advance e u ∧ u.peek.kind = .closeParen ∧ t = u.advance := by
  simp only [grouped, yields_bind, yields_advance, yields_expectPeek, yields_pure, and_assoc]
  constructor
  · rintro ⟨-, -, rfl, a, u, ha, -, -, hk, -, rfl, rfl, rfl⟩
    exact ⟨u, ha, hk, rfl⟩
  · rintro ⟨u, he, hk, rfl⟩
    exact ⟨(), _, rfl, e, u, he, _, _, hk, rfl, rfl, rfl, rfl⟩

theorem yields_block {b : Block} :
    (block expr).Yields s b t ↔
      ∃ ss, (inner (statement expr)).Yields s.advance ss t ∧ b = .mk s.current ss := by
  change (current >>= fun token => advance >>= fun _ => inner (statement expr) >>= fun ss =>
    pure (.mk token ss)).Yields s b t ↔ _
  simp [yields_bind, and_assoc]

theorem yields_conditional {e : Expr} :
    (conditional expr).Yields s e t ↔ s.peek.kind = .openParen ∧
      ∃ c u, (expr .lowest).Yields s.advance.advance c u ∧ u.peek.kind = .closeParen ∧
        u.advance.peek.kind = .openCurly ∧
        ∃ b v, (block expr).Yields u.advance.advance b v ∧
          (v.peek.kind ≠ .elseWord ∧ e = .cond s.current c b none ∧ t = v ∨
            v.peek.kind = .elseWord ∧ v.advance.peek.kind = .openCurly ∧
              ∃ d, (block expr).Yields v.advance.advance d t ∧
                e = .cond s.current c b (some d)) := by
  simp only [conditional, yields_bind, yields_current, yields_expectPeek, yields_advance,
    yields_peek, and_assoc, exists_and_left, exists_eq_left, exists_const]
  refine and_congr_right fun _ => exists_congr fun c => exists_congr fun u =>
    and_congr_right fun _ => and_congr_right fun _ => and_congr_right fun _ =>
      exists_congr fun b => exists_congr fun v => and_congr_right fun _ => ?_
  by_cases hv : v.peek.kind = .elseWord
  · simp [hv, yields_bind, and_assoc]
  · simp [hv]

theorem yields_parameter {i : Ident} :
    parameter.Yields s i t ↔
      s.peek.kind = .identifier ∧ i = ⟨s.peek, s.peek.text⟩ ∧ t = s.advance := by
  simp [parameter, yields_bind, and_assoc]

theorem yields_function {e : Expr} :
    (function expr).Yields s e t ↔ s.peek.kind = .openParen ∧
      ∃ is u, (parenthesised parameter).Yields s.advance is u ∧ u.peek.kind = .openCurly ∧
        ∃ b, (block expr).Yields u.advance b t ∧ e = .fn s.current is b := by
  simp [function, yields_bind, and_assoc]

theorem yields_argument {e : Expr} :
    (argument expr).Yields s e t ↔ (expr .lowest).Yields s.advance e t := by
  simp [argument, yields_bind]

theorem yields_call {f e : Expr} :
    (call expr f).Yields s e t ↔ ∃ es, (parenthesised (argument expr)).Yields s es t ∧
      e = .call s.current f es := by
  simp [call, yields_bind, and_assoc]

theorem yields_binary {p : Power} {l e : Expr} :
    (binary expr p l).Yields s e t ↔ ∃ r, (expr p).Yields s.advance r t ∧
      e = .binary s.current l s.current.text r := by
  simp [binary, yields_bind, and_assoc]

theorem yields_letStatement {a : Stmt} :
    (letStatement expr).Yields s a t ↔ s.peek.kind = .identifier ∧
      s.advance.peek.kind = .assignment ∧
      ∃ e u, (expr .lowest).Yields s.advance.advance.advance e u ∧
        a = .letBinding s.current ⟨s.peek, s.peek.text⟩ e ∧ t = u.pastSemicolon := by
  simp [letStatement, yields_bind, and_assoc]

theorem yields_returnStatement {a : Stmt} :
    (returnStatement expr).Yields s a t ↔
      ∃ e u, (expr .lowest).Yields s.advance e u ∧ a = .ret s.current e ∧
        t = u.pastSemicolon := by
  simp [returnStatement, yields_bind, and_assoc]

theorem yields_expressionStatement {a : Stmt} :
    (expressionStatement expr).Yields s a t ↔
      ∃ e u, (expr .lowest).Yields s e u ∧ a = .expr s.current e ∧ t = u.pastSemicolon := by
  simp [expressionStatement, yields_bind, and_assoc]

theorem yields_statement {a : Stmt} :
    (statement expr).Yields s a t ↔
      s.current.kind = .letWord ∧ (letStatement expr).Yields s a t ∨
        s.current.kind = .returnWord ∧ (returnStatement expr).Yields s a t ∨
        s.current.kind ≠ .letWord ∧ s.current.kind ≠ .returnWord ∧
          (expressionStatement expr).Yields s a t := by
  unfold statement
  rw [yields_bind]
  simp only [yields_current, and_assoc, exists_and_left, exists_eq_left]
  split
  · next hk => simp [hk]
  · next hk => simp [hk]
  · next hl hr =>
    have hl' : s.current.kind ≠ .letWord := hl
    have hr' : s.current.kind ≠ .returnWord := hr
    simp [hl', hr']

theorem yields_operand {rules : Rules} {e : Expr} :
    (operand rules expr).Yields s e t ↔
      ∃ rule, rules.operand s.current.kind = some rule ∧ (rule.parse expr).Yields s e t := by
  unfold operand
  rw [yields_bind]
  simp only [yields_current, and_assoc, exists_and_left, exists_eq_left]
  split
  · next rule hr => simp [hr]
  · next hr => simp [hr]

theorem not_yields_expression_zero {rules : Rules} {c : Power} {e : Expr} :
    ¬ (expression rules 0 c).Yields s e t := by
  simp [expression, yields_bind]

theorem yields_expression_succ {rules : Rules} {levels : Nat} {c : Power} {e : Expr} :
    (expression rules (levels + 1) c).Yields s e t ↔
      ∃ l u, (operand rules (expression rules levels)).Yields s l u ∧
        (extend rules (expression rules levels) c l).Yields u e t := by
  rw [expression, yields_bind]

@[simp] theorem overflows_current {f : Token → Parse β} :
    (current >>= f).Overflows s ↔ (f s.current).Overflows s :=
  overflows_congr rfl

@[simp] theorem overflows_peek {f : Token → Parse β} :
    (peek >>= f).Overflows s ↔ (f s.peek).Overflows s :=
  overflows_congr rfl

@[simp] theorem overflows_advance {f : Unit → Parse β} :
    (advance >>= f).Overflows s ↔ (f ()).Overflows s.advance :=
  overflows_congr rfl

theorem overflows_expectPeek {k : TokenKind} {f : Token → Parse β} (h : s.peek.kind = k) :
    (expectPeek k >>= f).Overflows s ↔ (f s.peek).Overflows s.advance :=
  overflows_congr (run_bind_ok (yields_expectPeek.2 ⟨h, rfl, rfl⟩).1 f)

theorem overflows_items {item : Parse α} (h : item.Overflows s) : (items item).Overflows s := by
  rw [overflows_congr (run_items item s)]
  exact overflows_bind_left h _

theorem overflows_items_rest {item : Parse α} {a : α} {u : State} (ha : item.Yields s a u)
    (hc : u.peek.kind = .comma) (h : (items item).Overflows u.advance) :
    (items item).Overflows s := by
  rw [overflows_congr (run_items item s)]
  refine overflows_bind_right ha ?_
  simp only [overflows_peek, hc, if_true, overflows_advance]
  exact overflows_bind_left h _

theorem overflows_parenthesised {item : Parse α} (hc : s.peek.kind ≠ .closeParen)
    (h : (items item).Overflows s) : (parenthesised item).Overflows s := by
  simp only [parenthesised, overflows_peek, hc, if_false]
  exact overflows_bind_left h _

theorem overflows_argument (h : (expr .lowest).Overflows s.advance) :
    (argument expr).Overflows s := by
  simpa only [argument, overflows_advance] using h

theorem overflows_call {f : Expr} (h : (parenthesised (argument expr)).Overflows s) :
    (call expr f).Overflows s := by
  simp only [call, overflows_current]
  exact overflows_bind_left h _

theorem overflows_binary {p : Power} {l : Expr} (h : (expr p).Overflows s.advance) :
    (binary expr p l).Overflows s := by
  simp only [binary, overflows_current, overflows_advance]
  exact overflows_bind_left h _

theorem overflows_prefixed (h : (expr .unary).Overflows s.advance) :
    (prefixed expr).Overflows s := by
  simp only [prefixed, overflows_current, overflows_advance]
  exact overflows_bind_left h _

theorem overflows_grouped (h : (expr .lowest).Overflows s.advance) :
    (grouped expr).Overflows s := by
  simp only [grouped, overflows_advance]
  exact overflows_bind_left h _

theorem overflows_block (h : (inner (statement expr)).Overflows s.advance) :
    (block expr).Overflows s := by
  simp only [block, overflows_current, overflows_advance]
  exact overflows_bind_left h _

theorem overflows_function {is : List Ident} {u : State} (ho : s.peek.kind = .openParen)
    (his : (parenthesised parameter).Yields s.advance is u) (hb : u.peek.kind = .openCurly)
    (h : (block expr).Overflows u.advance) : (function expr).Overflows s := by
  simp only [function, overflows_current, overflows_expectPeek ho]
  refine overflows_bind_right his ?_
  rw [overflows_expectPeek hb]
  exact overflows_bind_left h _

theorem overflows_condition (ho : s.peek.kind = .openParen)
    (h : (expr .lowest).Overflows s.advance.advance) : (conditional expr).Overflows s := by
  simp only [conditional, overflows_current, overflows_expectPeek ho, overflows_advance]
  exact overflows_bind_left h _

theorem overflows_consequence {c : Expr} {u : State} (ho : s.peek.kind = .openParen)
    (hc : (expr .lowest).Yields s.advance.advance c u) (hcl : u.peek.kind = .closeParen)
    (hb : u.advance.peek.kind = .openCurly) (h : (block expr).Overflows u.advance.advance) :
    (conditional expr).Overflows s := by
  simp only [conditional, overflows_current, overflows_expectPeek ho, overflows_advance]
  refine overflows_bind_right hc ?_
  rw [overflows_expectPeek hcl, overflows_expectPeek hb]
  exact overflows_bind_left h _

theorem overflows_alternative {c : Expr} {b : Block} {u v : State} (ho : s.peek.kind = .openParen)
    (hc : (expr .lowest).Yields s.advance.advance c u) (hcl : u.peek.kind = .closeParen)
    (hb : u.advance.peek.kind = .openCurly) (hy : (block expr).Yields u.advance.advance b v)
    (he : v.peek.kind = .elseWord) (hd : v.advance.peek.kind = .openCurly)
    (h : (block expr).Overflows v.advance.advance) : (conditional expr).Overflows s := by
  simp only [conditional, overflows_current, overflows_expectPeek ho, overflows_advance]
  refine overflows_bind_right hc ?_
  rw [overflows_expectPeek hcl, overflows_expectPeek hb]
  refine overflows_bind_right hy ?_
  simp only [overflows_peek, he, if_true, overflows_advance, overflows_expectPeek hd]
  exact overflows_bind_left h _

theorem overflows_operand (rule : OperandRule)
    (hr : Rules.standard.operand s.current.kind = some rule) (h : (rule.parse expr).Overflows s) :
    (operand .standard expr).Overflows s := by
  simpa only [operand, overflows_current, hr] using h

theorem overflows_statement (h : (expr .lowest).Overflows s) (hl : s.current.kind ≠ .letWord)
    (hr : s.current.kind ≠ .returnWord) : (statement expr).Overflows s := by
  simp only [statement, overflows_current, expressionStatement]
  exact overflows_bind_left h _

theorem overflows_return (hk : s.current.kind = .returnWord)
    (h : (expr .lowest).Overflows s.advance) : (statement expr).Overflows s := by
  simp only [statement, overflows_current, hk, returnStatement, overflows_advance]
  exact overflows_bind_left h _

theorem overflows_let (hk : s.current.kind = .letWord) (hn : s.peek.kind = .identifier)
    (ha : s.advance.peek.kind = .assignment)
    (h : (expr .lowest).Overflows s.advance.advance.advance) : (statement expr).Overflows s := by
  simp only [statement, overflows_current, hk, letStatement, overflows_expectPeek hn,
    overflows_expectPeek ha, overflows_advance]
  exact overflows_bind_left h _

end FrontEnd.Parse
