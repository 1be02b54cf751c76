import FrontEnd.Proofs.Completeness

namespace FrontEnd.Grammar

open Parse

variable {expr : Power → Parse Expr} {levels : Nat} {c : Power}

/-- Every phrase of more than so much nesting runs out of levels, where nothing extends it. -/
def Exceeds (expr : Power → Parse Expr) (levels : Nat) : Prop :=
  ∀ {c ts e n}, c ≠ .call → Phrase (floor c) ts e n → levels < n →
    ∀ (s : State) {after}, MayFollow s c after → (expr c).Overflows (s.on (ts ++ after))

theorem items_exceed (h : Complete expr levels) (k : Exceeds expr levels) {cl : Token}
    (hcl : cl.kind = .closeParen) (s : State) (after : List Token) {ts : List Token}
    {es : List Expr} {n : Nat} : ∀ (x : Token), Items ts es n → levels + 1 < n →
      (items (argument expr)).Overflows (s.on (x :: ts ++ cl :: after))
  | _, .one hp, hn => by
    have hover := k (c := .lowest) (by decide) hp (by omega) s
      (mayFollow_of_kind hcl ⟨rfl, by decide⟩ s after)
    exact overflows_items (overflows_argument hover)
  | _, @Items.more us e n comma vs es m hp hc hi, hn => by
    have hf := mayFollow_of_kind hc ⟨rfl, by decide⟩ s (vs ++ cl :: after)
    rw [List.cons_append, List.append_assoc]
    by_cases hm : levels < n
    · exact overflows_items (overflows_argument (k (c := .lowest) (by decide) hp hm s hf))
    · obtain ⟨last, hy⟩ := h (c := .lowest) (by decide) hp (by omega) s hf
      exact overflows_items_rest (yields_argument.2 hy) hc
        (items_exceed h k hcl s after comma hi (by omega))

theorem arguments_exceed (h : Complete expr levels) (k : Exceeds expr levels) {o cl : Token}
    (hcl : cl.kind = .closeParen) (s : State) (after : List Token) {ts : List Token}
    {es : List Expr} {n : Nat} (ha : Arguments ts es n) (hn : levels + 1 < n) :
    (parenthesised (argument expr)).Overflows (s.on (o :: ts ++ cl :: after)) := by
  cases ha with
  | none => omega
  | some hi =>
    obtain ⟨t, us, rfl, ht⟩ := hi.starts
    exact overflows_parenthesised (ne_of_mem_starters ht (by decide))
      (items_exceed h k hcl s after o hi hn)

theorem clause_exceeds (k : Exceeds expr levels) (s : State) {ts after : List Token} {a : Stmt}
    {n : Nat} (hc : Clause ts a n) (hn : levels < n) (hf : MayFollow s .lowest after) :
    (statement expr).Overflows (s.on (ts ++ after)) := by
  cases hc with
  | letBinding ht hname heq hp =>
    exact overflows_let ht hname heq (k (c := .lowest) (by decide) hp hn s hf)
  | ret ht hp => exact overflows_return ht (k (c := .lowest) (by decide) hp hn s hf)
  | expr hp =>
    have hk := hp.current_mem_starters s after
    exact overflows_statement (k (c := .lowest) (by decide) hp hn s hf)
      (ne_of_mem_starters hk (by decide)) (ne_of_mem_starters hk (by decide))

theorem loop_exceeds (h : Complete expr levels) (k : Exceeds expr levels)
    {loop : Parse (List Stmt)} {kind : TokenKind} (hl : IsLoop (statement expr) kind loop)
    (s : State) (after : List Token) (hk : (s.on after).current.kind = kind)
    (hend : kind = .closeCurly ∨ kind = .eof) {ts : List Token} {ss : List Stmt} {n : Nat}
    (hc : Clauses ts ss n) (hn : levels < n) : loop.Overflows (s.on (ts ++ after)) := by
  induction ss generalizing ts n with
  | nil =>
    cases hc
    omega
  | cons a ss ih =>
    obtain ⟨hcur, heof⟩ := current_of_clauses s hc after hend
    obtain ⟨us, vs, m, l, more, rfl, hfirst, hrest, he, hf, hadv⟩ := first_clause s hc hk hend
    rw [he] at hcur heof ⊢
    by_cases hm : levels < m
    · exact hl.overflows hcur heof (clause_exceeds k s hfirst hm hf)
    · obtain ⟨last, hy⟩ := clause_complete h s hfirst (by omega) hf
      have hover := ih hrest (by omega)
      rw [← hadv last] at hover
      exact hl.overflows_rest hcur heof hy hover

theorem program_exceeds (h : Complete expr levels) (k : Exceeds expr levels) (s : State)
    {ts : List Token} {ss : List Stmt} {n : Nat} (hc : Clauses ts ss n) (hn : levels < n) :
    (program (statement expr)).Overflows (s.on ts) := by
  have hover := loop_exceeds h k (isLoop_program _) s [] rfl (.inr rfl) hc hn
  rwa [List.append_nil] at hover

theorem block_exceeds (h : Complete expr levels) (k : Exceeds expr levels) (s : State)
    {ts : List Token} {b : Block} {n : Nat} (hb : Body ts b n) (hn : levels < n)
    (after : List Token) : (block expr).Overflows (s.on (ts ++ after)) := by
  obtain @⟨o, ts, ss, _, cl, ho, hc, hcl⟩ := hb
  have hover := loop_exceeds h k (isLoop_inner _) s (cl :: after) hcl (.inl rfl) hc hn
  refine overflows_block ?_
  simpa using hover

theorem conditional_exceeds (h : Complete expr levels) (k : Exceeds expr levels) (s : State)
    {t o cl : Token} {ts us : List Token} {e : Expr} {b : Block} {n m : Nat}
    (ho : o.kind = .openParen) (hp : Phrase .lowest ts e n) (hcl : cl.kind = .closeParen)
    (hb : Body us b m) (hn : levels < max n m) (after : List Token) :
    (conditional expr).Overflows (s.on (t :: o :: ts ++ cl :: us ++ after)) := by
  have hf := mayFollow_of_kind hcl ⟨rfl, by decide⟩ s (us ++ after)
  by_cases hn' : levels < n
  · refine overflows_condition ho ?_
    simpa using k (c := .lowest) (by decide) hp hn' s hf
  · obtain ⟨last, hy⟩ := h (c := .lowest) (by decide) hp (by omega) s hf
    exact overflows_consequence (u := s.on (last :: cl :: (us ++ after))) ho (by simpa using hy) hcl
      (current_of_body s hb after) (block_exceeds h k s hb (by omega) after)

theorem conditional_else_exceeds (h : Complete expr levels) (k : Exceeds expr levels) (s : State)
    {t o cl w : Token} {ts us vs : List Token} {e : Expr} {b d : Block} {n m l : Nat}
    (ho : o.kind = .openParen) (hp : Phrase .lowest ts e n) (hcl : cl.kind = .closeParen)
    (hb : Body us b m) (hw : w.kind = .elseWord) (hd : Body vs d l)
    (hn : levels < max n (max m l)) (after : List Token) :
    (conditional expr).Overflows (s.on (t :: o :: ts ++ cl :: us ++ w :: vs ++ after)) := by
  by_cases hl : levels < max n m
  · simpa using conditional_exceeds h k s ho hp hcl hb hl (w :: vs ++ after)
  · obtain ⟨last, hy⟩ := h (c := .lowest) (by decide) hp (by omega) s
      (mayFollow_of_kind hcl ⟨rfl, by decide⟩ s (us ++ w :: vs ++ after))
    obtain ⟨x, hx⟩ := block_complete h s hb (by omega) (w :: vs ++ after)
    refine overflows_alternative (u := s.on (last :: cl :: (us ++ w :: vs ++ after)))
      (v := s.on (x :: w :: (vs ++ after))) ho (by simpa using hy) hcl ?_ (by simpa using hx) hw
      (current_of_body s hd after) (block_exceeds h k s hd (by omega) after)
    simpa using current_of_body s hb (w :: vs ++ after)

theorem primary_exceeds (h : Complete expr levels) (k : Exceeds expr levels) (s : State)
    {ts : List Token} {e : Expr} {n : Nat} (hp : Primary ts e n) (hn : levels + 1 < n)
    (after : List Token) : (operand .standard expr).Overflows (s.on (ts ++ after)) := by
  cases hp with
  | name | number | yes | no => omega
  | @group o us _ m cl ho hp hcl =>
    have hover := k (c := .lowest) (by decide) hp (by omega) s
      (mayFollow_of_kind hcl ⟨rfl, by decide⟩ s after)
    refine overflows_operand .grouped (by simp [Rules.standard, ho])
      (overflows_grouped ?_)
    simpa using hover
  | cond ht ho hp hcl hb =>
    exact overflows_operand .conditional (by simp [Rules.standard, ht])
      (conditional_exceeds h k s ho hp hcl hb (by omega) after)
  | condElse ht ho hp hcl hb hw hd =>
    exact overflows_operand .conditional (by simp [Rules.standard, ht])
      (conditional_else_exceeds h k s ho hp hcl hb hw hd (by omega) after)
  | @fn t o us _ cl vs b m ht ho hps hcl hb =>
    have his := parameters_complete (o := o) hcl s (vs ++ after) hps
    exact overflows_operand .function (by simp [Rules.standard, ht])
      (overflows_function (u := s.on (cl :: (vs ++ after))) ho (by simpa using his)
        (current_of_body s hb after) (block_exceeds h k s hb (by omega) after))

theorem Phrase.exceeds (h : Complete expr levels) (k : Exceeds expr levels) {p : Power}
    {ts : List Token} {e : Expr} {n : Nat} : Phrase p ts e n → levels + 1 < n → floor c ≤ p →
      c ≠ .call → ∀ (s : State) (after : List Token), MayFollow s p after →
        (operand .standard expr >>= extend .standard expr c).Overflows (s.on (ts ++ after))
  | .tighter hp, hn, hc, hcall, s, after, hf =>
    hp.exceeds h k hn (Nat.le_trans hc (le_tighter _)) hcall s after (hf.mono (le_tighter _))
  | @binary _ us _ m op vs _ _ hl hop hr, hn, hc, hcall, s, after, hf => by
    have hf' := mayFollow_operator (s := s) hop (vs ++ after)
    rw [List.append_assoc]
    by_cases hm : levels + 1 < m
    · exact hl.exceeds h k hm hc hcall s (op :: (vs ++ after)) hf'
    · have hleft := hl.reaches h (by omega) hc hcall s (op :: (vs ++ after)) hf'
      rw [List.cons_append,
        overflows_congr (hleft.run (operator_of_mem hop) (lt_of_floor_le hc hop))]
      rw [← floor_eq_tighter hop] at hr
      have hover := k (ne_call_of_mem hop) hr (by omega) s hf
      exact overflows_bind_left (overflows_binary hover) _
  | @unary op _ _ _ ho hp, hn, _, _, s, after, hf => by
    have hover := k (c := .unary) (by decide) hp (by omega) s hf
    have hrule : Rules.standard.operand op.kind = some .prefixed := by
      obtain ho | ho := ho <;> rw [ho] <;> rfl
    have hop : (operand .standard expr).Overflows (s.on (op :: (_ ++ after))) :=
      overflows_operand .prefixed hrule (overflows_prefixed hover)
    exact overflows_bind_left hop _
  | @call us _ m o vs _ _ cl hp ho ha hcl, hn, hc, hcall, s, after, hf => by
    have hf' := mayFollow_openParen (s := s) ho (vs ++ cl :: after)
    rw [show us ++ o :: vs ++ [cl] ++ after = us ++ o :: (vs ++ cl :: after) by simp]
    by_cases hm : levels + 1 < m
    · exact hp.exceeds h k hm hc hcall s (o :: (vs ++ cl :: after)) hf'
    · have hcallee := hp.reaches h (by omega) hc hcall s (o :: (vs ++ cl :: after)) hf'
      have hrule : Rules.standard.operator o.kind = some (.call, .call) := by rw [ho]; rfl
      have hover := arguments_exceed (o := o) h k hcl s after ha (by omega)
      rw [overflows_congr (hcallee.run hrule (lt_call hcall))]
      exact overflows_bind_left (overflows_call hover) _
  | .primary hp, hn, _, _, s, after, _ =>
    overflows_bind_left (primary_exceeds h k s hp hn after) _

theorem overflows_expression_zero (rules : Rules) (c : Power) (s : State) :
    (expression rules 0 c).Overflows s :=
  .inl ⟨s.current.position, rfl⟩

theorem expression_exceeds (levels : Nat) : Exceeds (expression .standard levels) levels := by
  induction levels with
  | zero => exact fun _ _ _ s _ _ => overflows_expression_zero .standard _ _
  | succ levels ih =>
    intro c ts e n hc hp hn s after hf
    exact hp.exceeds (expression_complete levels) ih hn (Nat.le_refl _) hc s after
      (hf.mono (le_floor hc))

end FrontEnd.Grammar
