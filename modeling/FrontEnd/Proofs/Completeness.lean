import FrontEnd.Proofs.Binding
import FrontEnd.Proofs.Handlers

namespace FrontEnd.Grammar

open Parse

variable {expr : Power → Parse Expr} {levels : Nat} {s : State} {c : Power}

/-- Every phrase of no more than so much nesting is read, where nothing extends it. -/
def Complete (expr : Power → Parse Expr) (levels : Nat) : Prop :=
  ∀ {c ts e n}, c ≠ .call → Phrase (floor c) ts e n → n ≤ levels →
    ∀ (s : State) {after}, MayFollow s c after →
      ∃ last, (expr c).Yields (s.on (ts ++ after)) e (s.on (last :: after))

/-- The tokens are read, and the loop of an expression is to decide on what follows them. -/
def Reaches (expr : Power → Parse Expr) (c : Power) (s : State) (ts after : List Token)
    (e : Expr) : Prop :=
  ∃ last, (operand .standard expr >>= extend .standard expr c).run (s.on (ts ++ after)) =
    (extend .standard expr c e).run (s.on (last :: after))

theorem reaches_of_operand {ts after : List Token} {e : Expr} {last : Token}
    (h : (operand .standard expr).Yields (s.on (ts ++ after)) e (s.on (last :: after))) :
    Reaches expr c s ts after e :=
  ⟨last, run_bind_ok h.1 _⟩

theorem Reaches.stop {ts after : List Token} {e : Expr} (h : Reaches expr c s ts after e)
    (hp : pull s after ≤ c) : ∃ last,
      (operand .standard expr >>= extend .standard expr c).Yields (s.on (ts ++ after)) e
        (s.on (last :: after)) := by
  obtain ⟨last, h⟩ := h
  refine ⟨last, ?_, rfl⟩
  rw [h, run_extend_stop (by simpa [pull] using hp)]

theorem Reaches.run {ts us : List Token} {op : Token} {p : Power} {rule : OperatorRule} {e : Expr}
    (h : Reaches expr c s ts (op :: us) e)
    (hr : Rules.standard.operator op.kind = some (p, rule)) (hp : c < p) :
    (operand .standard expr >>= extend .standard expr c).run (s.on (ts ++ op :: us)) =
      (rule.parse expr p e >>= extend .standard expr c).run (s.on (op :: us)) := by
  obtain ⟨last, h⟩ := h
  rw [h, run_extend_step (s := s.on (last :: op :: us)) (List.cons_ne_nil _ _) hr hp e]
  rfl

theorem Reaches.step {ts us after : List Token} {op last : Token} {p : Power}
    {rule : OperatorRule} {e wider : Expr} (h : Reaches expr c s ts (op :: (us ++ after)) e)
    (hr : Rules.standard.operator op.kind = some (p, rule)) (hp : c < p)
    (hw : (rule.parse expr p e).Yields (s.on (op :: (us ++ after))) wider (s.on (last :: after))) :
    Reaches expr c s (ts ++ op :: us) after wider := by
  refine ⟨last, ?_⟩
  rw [List.append_assoc, List.cons_append, h.run hr hp]
  exact run_bind_ok hw.1 _

theorem Phrase.current_mem_starters {p : Power} {ts : List Token} {e : Expr} {n : Nat}
    (h : Phrase p ts e n) (s : State) (after : List Token) :
    (s.on (ts ++ after)).current.kind ∈ starters := by
  obtain ⟨t, us, rfl, ht⟩ := h.starts
  exact ht

theorem ne_of_mem_starters {k l : TokenKind} (hk : k ∈ starters) (hl : l ∉ starters) : k ≠ l := by
  rintro rfl
  exact hl hk

theorem items_complete (h : Complete expr levels) {cl : Token} (hcl : cl.kind = .closeParen)
    (s : State) (after : List Token) {ts : List Token} {es : List Expr} {n : Nat} :
    ∀ (x : Token), Items ts es n → n ≤ levels + 1 → ∃ last,
      (items (argument expr)).Yields (s.on (x :: ts ++ cl :: after)) es (s.on (last :: cl :: after))
  | _, .one hp, hn => by
    obtain ⟨last, hy⟩ := h (c := .lowest) (by decide) hp (by omega) s
      (mayFollow_of_kind hcl ⟨rfl, by decide⟩ s after)
    refine ⟨last, yields_items.2 ⟨_, _, yields_argument.2 hy, .inl ⟨?_, rfl, rfl⟩⟩⟩
    simp [hcl]
  | _, .more hp hc hi, hn => by
    obtain ⟨last, hy⟩ := h (c := .lowest) (by decide) hp (by omega) s
      (mayFollow_of_kind hc ⟨rfl, by decide⟩ s _)
    obtain ⟨last', hys⟩ := items_complete h hcl s after _ hi (by omega)
    rw [List.cons_append, List.append_assoc]
    exact ⟨last', yields_items.2 ⟨_, _, yields_argument.2 hy, .inr ⟨hc, _, rfl, hys⟩⟩⟩

theorem arguments_complete (h : Complete expr levels) {o cl : Token} (hcl : cl.kind = .closeParen)
    (s : State) (after : List Token) {ts : List Token} {es : List Expr} {n : Nat}
    (ha : Arguments ts es n) (hn : n ≤ levels + 1) :
    (parenthesised (argument expr)).Yields (s.on (o :: ts ++ cl :: after)) es
      (s.on (cl :: after)) := by
  cases ha with
  | none => exact yields_parenthesised.2 (.inl ⟨hcl, rfl, rfl⟩)
  | some hi =>
    obtain ⟨last, hy⟩ := items_complete h hcl s after o hi hn
    obtain ⟨t, us, rfl, ht⟩ := hi.starts
    exact yields_parenthesised.2 (.inr ⟨ne_of_mem_starters ht (by decide), _, hy, hcl, rfl⟩)

theorem parameters_complete {o cl : Token} (hcl : cl.kind = .closeParen) (s : State)
    (after : List Token) {ts : List Token} {is : List Ident} (hp : Parameters ts is) :
    (parenthesised parameter).Yields (s.on (o :: ts ++ cl :: after)) is (s.on (cl :: after)) := by
  cases hp with
  | none => exact yields_parenthesised.2 (.inl ⟨hcl, rfl, rfl⟩)
  | some hs =>
    have hy : ∃ last, (items parameter).Yields (s.on (o :: ts ++ cl :: after)) is
        (s.on (last :: cl :: after)) := by
      induction hs generalizing o with
      | one hn =>
        obtain ⟨name, hk, rfl, rfl⟩ := hn
        exact ⟨name, yields_items.2 ⟨_, _, yields_parameter.2 ⟨hk, rfl, rfl⟩,
          .inl ⟨by simp [hcl], rfl, rfl⟩⟩⟩
      | more hn hc _ ih =>
        obtain ⟨name, hk, rfl, rfl⟩ := hn
        obtain ⟨last, hy⟩ := ih
        exact ⟨last, yields_items.2 ⟨_, _, yields_parameter.2 ⟨hk, rfl, rfl⟩,
          .inr ⟨hc, _, rfl, hy⟩⟩⟩
    obtain ⟨last, hy⟩ := hy
    refine yields_parenthesised.2 (.inr ⟨?_, _, hy, hcl, rfl⟩)
    cases hs with
    | one hn => obtain ⟨name, hk, rfl, rfl⟩ := hn; simp [hk]
    | more hn _ _ => obtain ⟨name, hk, rfl, rfl⟩ := hn; simp [hk]

/-- Statements that do not go on with the one before them end it. -/
theorem mayFollow_clauses {us after : List Token} {ss : List Stmt} {n : Nat} (h : Clauses us ss n)
    (hc : ¬ Continues us) {k : TokenKind} (hk : (s.on after).current.kind = k)
    (hend : k = .closeCurly ∨ k = .eof) :
    MayFollow s .lowest (us ++ after) ∧ (s.on (us ++ after)).current.kind ≠ .semicolon := by
  obtain ⟨rfl, rfl⟩ | ⟨t, us, rfl, ht⟩ := h.starts
  · rw [List.nil_append, hk]
    obtain rfl | rfl := hend <;>
      exact ⟨mayFollow_lowest (by rw [hk]; rfl) (by simp [hk]), by decide⟩
  · have hd : t.kind ≠ .dash := fun hk => hc ⟨t, rfl, .inl hk⟩
    have ho : t.kind ≠ .openParen := fun hk => hc ⟨t, rfl, .inr hk⟩
    simp only [starters, List.mem_cons, List.not_mem_nil, or_false, hd, ho, false_or] at ht
    have hk : (Rules.standard.operator t.kind = none ∧ t.kind ≠ .elseWord) ∧
        t.kind ≠ .semicolon := by
      obtain ht | ht | ht | ht | ht | ht | ht | ht | ht := ht <;> rw [ht] <;>
        exact ⟨⟨rfl, by decide⟩, by decide⟩
    exact ⟨mayFollow_of_kind rfl hk.1 s _, hk.2⟩

theorem clause_complete (h : Complete expr levels) (s : State) {ts after : List Token} {a : Stmt}
    {n : Nat} (hc : Clause ts a n) (hn : n ≤ levels) (hf : MayFollow s .lowest after) :
    ∃ last, (statement expr).Yields (s.on (ts ++ after)) a (s.on (last :: after)).pastSemicolon := by
  cases hc with
  | letBinding ht hname heq hp =>
    obtain ⟨last, hy⟩ := h (c := .lowest) (by decide) hp hn s hf
    exact ⟨last, yields_statement.2 (.inl ⟨ht, yields_letStatement.2
      ⟨hname, heq, _, _, hy, rfl, rfl⟩⟩)⟩
  | ret ht hp =>
    obtain ⟨last, hy⟩ := h (c := .lowest) (by decide) hp hn s hf
    exact ⟨last, yields_statement.2 (.inr (.inl ⟨ht, yields_returnStatement.2
      ⟨_, _, hy, rfl, rfl⟩⟩))⟩
  | expr hp =>
    obtain ⟨last, hy⟩ := h (c := .lowest) (by decide) hp hn s hf
    have hk := hp.current_mem_starters s after
    exact ⟨last, yields_statement.2 (.inr (.inr ⟨ne_of_mem_starters hk (by decide),
      ne_of_mem_starters hk (by decide), yields_expressionStatement.2 ⟨_, _, hy, rfl, rfl⟩⟩))⟩

/-- The first of some statements, and where it ends: the parser goes on with the others. -/
theorem first_clause (s : State) {ts after : List Token} {a : Stmt} {ss : List Stmt} {n : Nat}
    (hc : Clauses ts (a :: ss) n) {k : TokenKind} (hk : (s.on after).current.kind = k)
    (hend : k = .closeCurly ∨ k = .eof) :
    ∃ us vs m l more, n = max m l ∧ Clause us a m ∧ Clauses vs ss l ∧ ts ++ after = us ++ more ∧
      MayFollow s .lowest more ∧
        ∀ last, (s.on (last :: more)).pastSemicolon.advance = s.on (vs ++ after) := by
  cases hc with
  | @ended us _ m semi vs _ l hc hs hcs =>
    refine ⟨us, vs, m, l, semi :: (vs ++ after), rfl, hc, hcs, by simp,
      mayFollow_of_kind hs ⟨rfl, by decide⟩ s _, fun last => ?_⟩
    rw [State.pastSemicolon, if_pos (by simpa using hs)]
    rfl
  | @bare us _ m vs _ l hc hcon hcs =>
    obtain ⟨hf, hs⟩ := mayFollow_clauses hcs hcon hk hend
    refine ⟨us, vs, m, l, vs ++ after, rfl, hc, hcs, by simp, hf, fun last => ?_⟩
    rw [State.pastSemicolon, if_neg (by simpa using hs)]
    rfl

theorem current_of_clauses (s : State) {ts : List Token} {a : Stmt} {ss : List Stmt} {n : Nat}
    (hc : Clauses ts (a :: ss) n) (after : List Token) {k : TokenKind}
    (hend : k = .closeCurly ∨ k = .eof) :
    (s.on (ts ++ after)).current.kind ≠ k ∧ (s.on (ts ++ after)).current.kind ≠ .eof := by
  obtain ⟨rfl, h⟩ | ⟨t, us, rfl, ht⟩ := hc.starts
  · cases h
  · rw [List.cons_append, State.current_on_cons]
    constructor
    · rintro rfl
      obtain hk | hk := hend <;> simp [hk, starters] at ht
    · intro hk
      simp [hk, starters] at ht

theorem loop_complete (h : Complete expr levels) {loop : Parse (List Stmt)} {k : TokenKind}
    (hl : IsLoop (statement expr) k loop) (s : State) (after : List Token)
    (hk : (s.on after).current.kind = k) (hend : k = .closeCurly ∨ k = .eof) {ts : List Token}
    {ss : List Stmt} {n : Nat} (hc : Clauses ts ss n) (hn : n ≤ levels) :
    loop.Yields (s.on (ts ++ after)) ss (s.on after) := by
  induction ss generalizing ts n with
  | nil =>
    cases hc
    exact hl.yields.2 (.inl ⟨hk, rfl, rfl⟩)
  | cons a ss ih =>
    obtain ⟨hcur, heof⟩ := current_of_clauses s hc after hend
    obtain ⟨us, vs, m, l, more, rfl, hfirst, hrest, he, hf, hadv⟩ := first_clause s hc hk hend
    obtain ⟨last, hy⟩ := clause_complete h s hfirst (by omega) hf
    have hys := ih hrest (by omega)
    rw [← hadv last] at hys
    rw [← he] at hy
    exact hl.yields.2 (.inr ⟨hcur, heof, a, _, ss, hy, rfl, hys⟩)

theorem program_complete (h : Complete expr levels) (s : State) {ts : List Token}
    {ss : List Stmt} {n : Nat} (hc : Clauses ts ss n) (hn : n ≤ levels) :
    (program (statement expr)).Yields (s.on ts) ss (s.on []) := by
  have hy := loop_complete h (isLoop_program _) s [] rfl (.inr rfl) hc hn
  rwa [List.append_nil] at hy

theorem block_complete (h : Complete expr levels) (s : State) {ts : List Token} {b : Block}
    {n : Nat} (hb : Body ts b n) (hn : n ≤ levels) (after : List Token) :
    ∃ cl, (block expr).Yields (s.on (ts ++ after)) b (s.on (cl :: after)) := by
  obtain @⟨o, ts, ss, _, cl, ho, hc, hcl⟩ := hb
  have hy := loop_complete h (isLoop_inner _) s (cl :: after) hcl (.inl rfl) hc hn
  refine ⟨cl, yields_block.2 ⟨ss, ?_, rfl⟩⟩
  simpa using hy

theorem current_of_body (s : State) {ts : List Token} {b : Block} {n : Nat} (hb : Body ts b n)
    (after : List Token) : (s.on (ts ++ after)).current.kind = .openCurly := by
  cases hb with
  | mk ho _ _ => exact ho

theorem conditional_complete (h : Complete expr levels) (s : State) {t o cl : Token}
    {ts us : List Token} {e : Expr} {b : Block} {n m : Nat} (ho : o.kind = .openParen)
    (hp : Phrase .lowest ts e n) (hn : n ≤ levels) (hcl : cl.kind = .closeParen)
    (hb : Body us b m) (hm : m ≤ levels) {after : List Token}
    (ha : (s.on after).current.kind ≠ .elseWord) :
    ∃ last, (conditional expr).Yields (s.on (t :: o :: ts ++ cl :: us ++ after))
      (.cond t e b none) (s.on (last :: after)) := by
  obtain ⟨last, hy⟩ := h (c := .lowest) (by decide) hp hn s
    (mayFollow_of_kind hcl ⟨rfl, by decide⟩ s (us ++ after))
  obtain ⟨d, hd⟩ := block_complete h s hb hm after
  refine ⟨d, yields_conditional.2 ⟨ho, e, s.on (last :: cl :: (us ++ after)), by simpa using hy,
    hcl, current_of_body s hb after, b, _, hd, .inl ⟨ha, rfl, rfl⟩⟩⟩

theorem conditional_else_complete (h : Complete expr levels) (s : State) {t o cl w : Token}
    {ts us vs : List Token} {e : Expr} {b d : Block} {n m k : Nat} (ho : o.kind = .openParen)
    (hp : Phrase .lowest ts e n) (hn : n ≤ levels) (hcl : cl.kind = .closeParen)
    (hb : Body us b m) (hm : m ≤ levels) (hw : w.kind = .elseWord) (hd : Body vs d k)
    (hk : k ≤ levels) (after : List Token) :
    ∃ last, (conditional expr).Yields (s.on (t :: o :: ts ++ cl :: us ++ w :: vs ++ after))
      (.cond t e b (some d)) (s.on (last :: after)) := by
  obtain ⟨last, hy⟩ := h (c := .lowest) (by decide) hp hn s
    (mayFollow_of_kind hcl ⟨rfl, by decide⟩ s (us ++ w :: vs ++ after))
  obtain ⟨x, hx⟩ := block_complete h s hb hm (w :: vs ++ after)
  obtain ⟨y, hd'⟩ := block_complete h s hd hk after
  refine ⟨y, yields_conditional.2 ⟨ho, e, s.on (last :: cl :: (us ++ w :: vs ++ after)),
    by simpa using hy, hcl, ?_, b, s.on (x :: w :: (vs ++ after)), by simpa using hx,
    .inr ⟨hw, ?_, d, hd', rfl⟩⟩⟩
  · simpa using current_of_body s hb (w :: vs ++ after)
  · exact current_of_body s hd after

theorem primary_complete (h : Complete expr levels) (s : State) {ts : List Token} {e : Expr}
    {n : Nat} (hp : Primary ts e n) (hn : n ≤ levels + 1) {after : List Token}
    (ha : (s.on after).current.kind ≠ .elseWord) :
    ∃ last, (operand .standard expr).Yields (s.on (ts ++ after)) e (s.on (last :: after)) := by
  cases hp with
  | @name t hk =>
    refine ⟨t, yields_operand.2 ⟨.primary, by simp [Rules.standard, hk], ?_⟩⟩
    exact yields_primary.2 ⟨rfl, .inr (.inl ⟨hk, rfl⟩)⟩
  | @number t hk hle =>
    refine ⟨t, yields_operand.2 ⟨.primary, by simp [Rules.standard, hk], ?_⟩⟩
    exact yields_primary.2 ⟨rfl, .inl ⟨hk, _, if_pos hle, rfl⟩⟩
  | @yes t hk =>
    refine ⟨t, yields_operand.2 ⟨.primary, by simp [Rules.standard, hk], ?_⟩⟩
    exact yields_primary.2 ⟨rfl, .inr (.inr (.inl ⟨hk, rfl⟩))⟩
  | @no t hk =>
    refine ⟨t, yields_operand.2 ⟨.primary, by simp [Rules.standard, hk], ?_⟩⟩
    exact yields_primary.2 ⟨rfl, .inr (.inr (.inr ⟨hk, rfl⟩))⟩
  | @group o us _ k cl ho hp hcl =>
    obtain ⟨last, hy⟩ := h (c := .lowest) (by decide) hp (by omega) s
      (mayFollow_of_kind hcl ⟨rfl, by decide⟩ s after)
    refine ⟨cl, yields_operand.2 ⟨.grouped, by simp [Rules.standard, ho], ?_⟩⟩
    exact yields_grouped.2 ⟨s.on (last :: cl :: after), by simpa using hy, hcl, rfl⟩
  | cond ht ho hp hcl hb =>
    obtain ⟨last, hy⟩ := conditional_complete h s ho hp (by omega) hcl hb (by omega) ha
    exact ⟨last, yields_operand.2 ⟨.conditional, by simp [Rules.standard, ht], hy⟩⟩
  | condElse ht ho hp hcl hb hw hd =>
    obtain ⟨last, hy⟩ := conditional_else_complete h s ho hp (by omega) hcl hb (by omega) hw hd
      (by omega) after
    exact ⟨last, yields_operand.2 ⟨.conditional, by simp [Rules.standard, ht], hy⟩⟩
  | @fn t o us _ cl vs b m ht ho hps hcl hb =>
    obtain ⟨last, hy⟩ := block_complete h s hb (by omega) after
    have his := parameters_complete (o := o) hcl s (vs ++ after) hps
    refine ⟨last, yields_operand.2 ⟨.function, by simp [Rules.standard, ht], ?_⟩⟩
    exact yields_function.2 ⟨ho, _, s.on (cl :: (vs ++ after)), by simpa using his,
      current_of_body s hb after, b, hy, rfl⟩

theorem Phrase.reaches (h : Complete expr levels) {p : Power} {ts : List Token} {e : Expr}
    {n : Nat} : Phrase p ts e n → n ≤ levels + 1 → floor c ≤ p → c ≠ .call →
      ∀ (s : State) (after : List Token), MayFollow s p after → Reaches expr c s ts after e
  | .tighter hp, hn, hc, hcall, s, after, hf =>
    hp.reaches h hn (Nat.le_trans hc (le_tighter _)) hcall s after (hf.mono (le_tighter _))
  | @binary _ _ _ _ op us _ _ hl hop hr, hn, hc, hcall, s, after, hf => by
    have hleft :=
      hl.reaches h (by omega) hc hcall s (op :: (us ++ after)) (mayFollow_operator hop _)
    rw [← floor_eq_tighter hop] at hr
    obtain ⟨last, hy⟩ := h (ne_call_of_mem hop) hr (by omega) s hf
    exact hleft.step (operator_of_mem hop) (lt_of_floor_le hc hop)
      (yields_binary.2 ⟨_, hy, rfl⟩)
  | @unary op _ _ _ ho hp, hn, _, _, s, after, hf => by
    obtain ⟨last, hy⟩ := h (c := .unary) (by decide) hp (by omega) s hf
    have hrule : Rules.standard.operand op.kind = some .prefixed := by
      obtain ho | ho := ho <;> rw [ho] <;> rfl
    exact reaches_of_operand (yields_operand.2 ⟨_, hrule, yields_prefixed.2 ⟨_, hy, rfl⟩⟩)
  | @call _ _ _ o us _ _ cl hp ho ha hcl, hn, hc, hcall, s, after, hf => by
    have hcallee := hp.reaches h (by omega) hc hcall s (o :: (us ++ [cl] ++ after))
      (mayFollow_openParen ho _)
    have hargs := arguments_complete (o := o) h hcl s after ha (by omega)
    rw [show o :: us ++ cl :: after = o :: (us ++ [cl] ++ after) by simp] at hargs
    have hrule : Rules.standard.operator o.kind = some (.call, .call) := by rw [ho]; rfl
    rw [List.append_assoc]
    exact hcallee.step hrule (lt_call hcall) (yields_call.2 ⟨_, hargs, rfl⟩)
  | .primary hp, hn, _, _, s, after, hf => by
    obtain ⟨last, hy⟩ := primary_complete h s hp hn hf.2
    exact reaches_of_operand hy

theorem expression_complete (levels : Nat) : Complete (expression .standard levels) levels := by
  induction levels with
  | zero => exact fun _ hp hn => absurd hp.pos (by omega)
  | succ levels ih =>
    intro c ts e n hc hp hn s after hf
    exact (hp.reaches ih hn (Nat.le_refl _) hc s after (hf.mono (le_floor hc))).stop hf.1

end FrontEnd.Grammar
