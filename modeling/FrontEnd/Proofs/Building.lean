import FrontEnd.Proofs.Order
import FrontEnd.Proofs.WellFormed

namespace FrontEnd

open Grammar

/-- The first tokens of expression statements are such that an operand may begin with them. -/
def Starts (ms : List Mark) : Prop :=
  ∀ t, Mark.start t ∈ ms → (Rules.standard.operand t.kind).isSome = true

@[simp] theorem starts_nil : Starts [] := by simp [Starts]

@[simp] theorem starts_node_cons {t : Token} {ms : List Mark} :
    Starts (.node t :: ms) ↔ Starts ms := by
  simp [Starts]

@[simp] theorem starts_start_cons {t : Token} {ms : List Mark} :
    Starts (.start t :: ms) ↔ (Rules.standard.operand t.kind).isSome = true ∧ Starts ms := by
  simp [Starts]

@[simp] theorem starts_append {ms ns : List Mark} :
    Starts (ms ++ ns) ↔ Starts ms ∧ Starts ns := by
  simp [Starts, or_imp, forall_and]

@[simp] theorem starts_parameters (is : List Ident) : Starts (is.map Ident.mark) := by
  simp [Starts, Ident.mark]

def Expr.Built (e : Expr) : Prop := e.wellFormed = true ∧ Starts e.marks

def Expr.BuiltList (es : List Expr) : Prop :=
  Expr.wellFormedList es = true ∧ Starts (Expr.marksList es)

def Stmt.Built (s : Stmt) : Prop := s.wellFormed = true ∧ Starts s.marks

def Stmt.BuiltList (ss : List Stmt) : Prop :=
  Stmt.wellFormedList ss = true ∧ Starts (Stmt.marksList ss)

def Block.Built (b : Block) : Prop := b.wellFormed = true ∧ Starts b.marks

theorem Expr.builtList_of_forall {es : List Expr} (h : ∀ e ∈ es, e.Built) : BuiltList es := by
  induction es with
  | nil => exact ⟨rfl, starts_nil⟩
  | cons e es ih =>
    obtain ⟨he, hes⟩ := List.forall_mem_cons.1 h
    simpa [BuiltList, wellFormedList, marksList, he.1, he.2] using ih hes

theorem Stmt.builtList_cons {s : Stmt} {ss : List Stmt} (h : s.Built) (hs : BuiltList ss) :
    BuiltList (s :: ss) := by
  simpa [BuiltList, wellFormedList, marksList, h.1, h.2] using hs

section

variable {t : Token} {a b : Expr} {x y : Block} {is : List Ident} {i : Ident}

theorem built_unary (ht : t.fits [.dash, .not] = true) (h : a.Built) :
    (Expr.unary t t.text a).Built := by
  simp [Expr.Built, Expr.wellFormed, Expr.marks, ht, h.1, h.2]

theorem built_binary (ht : t.fits infixes = true) (h : a.Built) (k : b.Built) :
    (Expr.binary t a t.text b).Built := by
  simp [Expr.Built, Expr.wellFormed, Expr.marks, ht, h.1, h.2, k.1, k.2]

theorem built_cond (ht : t.fits [.ifWord] = true) (h : a.Built) (k : x.Built) :
    (Expr.cond t a x none).Built := by
  simp [Expr.Built, Expr.wellFormed, Expr.marks, ht, h.1, h.2, k.1, k.2]

theorem built_cond_else (ht : t.fits [.ifWord] = true) (h : a.Built) (k : x.Built)
    (l : y.Built) : (Expr.cond t a x (some y)).Built := by
  simp [Expr.Built, Expr.wellFormed, Expr.marks, ht, h.1, h.2, k.1, k.2, l.1, l.2]

theorem built_fn (ht : t.fits [.fnWord] = true) (h : ∀ i ∈ is, i.wellFormed = true)
    (k : x.Built) : (Expr.fn t is x).Built := by
  simp [Expr.Built, Expr.wellFormed, Expr.marks, ht, List.all_eq_true.2 h, k.1, k.2]

theorem built_call {es : List Expr} (ht : t.fits [.openParen] = true) (h : a.Built)
    (k : Expr.BuiltList es) : (Expr.call t a es).Built := by
  simp [Expr.Built, Expr.wellFormed, Expr.marks, ht, h.1, h.2, k.1, k.2]

theorem built_letBinding (ht : t.fits [.letWord] = true) (hi : i.wellFormed = true)
    (h : a.Built) : (Stmt.letBinding t i a).Built := by
  simp [Stmt.Built, Stmt.wellFormed, Stmt.marks, Ident.mark, ht, hi, h.1, h.2]

theorem built_ret (ht : t.fits [.returnWord] = true) (h : a.Built) : (Stmt.ret t a).Built := by
  simp [Stmt.Built, Stmt.wellFormed, Stmt.marks, ht, h.1, h.2]

theorem built_expr (ht : (Rules.standard.operand t.kind).isSome = true) (h : a.Built) :
    (Stmt.expr t a).Built := by
  simp [Stmt.Built, Stmt.wellFormed, Stmt.marks, ht, h.1, h.2]

theorem built_block {ss : List Stmt} (ht : t.fits [.openCurly] = true) (h : Stmt.BuiltList ss) :
    (Block.mk t ss).Built := by
  simp [Block.Built, Block.wellFormed, Block.marks, ht, h.1, h.2]

end

theorem Grammar.Legal.suffix {ts us : List Token} (h : Legal ts) (hus : us <:+ ts) : Legal us :=
  fun t ht => h t (hus.subset ht)

theorem Grammar.Legal.tail {ts : List Token} (h : Legal ts) : Legal ts.tail :=
  h.suffix (List.tail_suffix ts)

theorem fits_current {s : State} {kinds : List TokenKind} (hs : Legal s.rest)
    (hk : s.current.kind ∈ kinds) (hi : .illegal ∉ kinds) (he : .eof ∉ kinds) :
    s.current.fits kinds = true := by
  have hne : s.rest ≠ [] := State.rest_ne_nil_of_current (ne_of_mem_of_not_mem hk he)
  obtain ⟨t, ts, hrest⟩ := List.exists_cons_of_ne_nil hne
  have hcurrent : s.current = t := by simp [State.current, hrest]
  have hmem : s.current ∈ s.rest := by simp [hcurrent, hrest]
  exact fits_of_legal (hs _ hmem) hk hi

theorem fits_current_kind {s : State} {k : TokenKind} (hs : Legal s.rest)
    (hk : s.current.kind = k) (hi : k ≠ .illegal) (he : k ≠ .eof) : s.current.fits [k] = true :=
  fits_current hs (by simp [hk]) (by simpa using hi.symm) (by simpa using he.symm)

theorem wellFormed_peek {s : State} (hs : Legal s.rest) (hk : s.peek.kind = .identifier) :
    Ident.wellFormed ⟨s.peek, s.peek.text⟩ = true := by
  have hfits : s.advance.current.fits [.identifier] = true :=
    fits_current_kind hs.tail hk (by decide) (by decide)
  rw [Parse.current_advance] at hfits
  simp [Ident.wellFormed, hfits]

namespace Parse

variable {α : Type} {expr : Power → Parse Expr} {s : State}

/-- What is answered has the property, and the tokens that are left are still legal ones. -/
abbrev Builds (p : Parse α) (ok : α → Prop) (s : State) : Prop :=
  p.Ensures s (fun a t => ok a ∧ Legal t.rest) fun _ _ => True

abbrev BuildsAll (expr : Power → Parse Expr) : Prop :=
  ∀ c s, Legal s.rest → (expr c).Builds
    (fun e => e.Built ∧ (Rules.standard.operand s.current.kind).isSome = true) s

theorem primary_builds (hs : Legal s.rest) : primary.Builds Expr.Built s := by
  simp only [Builds, primary, ensures_bind, ensures_current]
  split
  · next hk =>
    have ht : s.current.fits [.int] = true := fits_current_kind hs hk (by decide) (by decide)
    split
    · next v hv =>
      obtain ⟨hle, rfl⟩ := integer?_eq_some hv
      exact ⟨by simp [Expr.Built, Expr.wellFormed, Expr.marks, ht, hle], hs⟩
    · trivial
  · next hk =>
    have ht : s.current.fits [.identifier] = true :=
      fits_current_kind hs hk (by decide) (by decide)
    exact ⟨by simp [Expr.Built, Expr.wellFormed, Expr.marks, Ident.wellFormed, Ident.mark, ht], hs⟩
  · next hk =>
    have ht : s.current.fits [.trueWord] = true := fits_current_kind hs hk (by decide) (by decide)
    exact ⟨by simp [Expr.Built, Expr.wellFormed, Expr.marks, ht], hs⟩
  · next hk =>
    have ht : s.current.fits [.falseWord] = true := fits_current_kind hs hk (by decide) (by decide)
    exact ⟨by simp [Expr.Built, Expr.wellFormed, Expr.marks, ht], hs⟩
  · exact ensures_refuse.2 trivial

theorem prefixed_builds (h : BuildsAll expr) (hs : Legal s.rest)
    (hk : s.current.kind = .dash ∨ s.current.kind = .not) :
    (prefixed expr).Builds Expr.Built s := by
  have ht : s.current.fits [.dash, .not] = true :=
    fits_current hs (by simpa using hk) (by decide) (by decide)
  simp only [Builds, prefixed, ensures_bind, ensures_current, ensures_advance, ensures_pure]
  exact (h .unary _ hs.tail).imp fun _ _ ha => ⟨built_unary ht ha.1.1, ha.2⟩

theorem grouped_builds (h : BuildsAll expr) (hs : Legal s.rest) :
    (grouped expr).Builds Expr.Built s := by
  simp only [Builds, grouped, ensures_bind, ensures_advance, ensures_expectPeek, ensures_pure]
  refine (h .lowest _ hs.tail).imp fun _ _ ha => ⟨fun _ => ?_, fun _ => trivial⟩
  exact ⟨ha.1.1, ha.2.tail⟩

theorem items_build {item : Parse α} {ok : α → Prop}
    (h : ∀ s, Legal s.rest → item.Builds ok s) (hs : Legal s.rest) :
    (items item).Builds (∀ a ∈ ·, ok a) s := by
  refine ensures_iff.2 ⟨fun as t ht => ?_, fun _ _ _ => trivial⟩
  change runItems item s = _ at ht
  fun_induction runItems item s generalizing as t with
  | case1 s e u hu => cases ht
  | case2 s a u hu hc e v hv ih => cases ht
  | case3 s a u hu hc as v hv ih =>
    cases ht
    obtain ⟨ha, hu'⟩ := (h s hs).ok hu
    obtain ⟨has, hv'⟩ := ih hu'.tail _ _ hv
    exact ⟨List.forall_mem_cons.2 ⟨ha, has⟩, hv'⟩
  | case4 s a u hu hc =>
    cases ht
    obtain ⟨ha, hu'⟩ := (h s hs).ok hu
    exact ⟨by simpa using ha, hu'⟩

theorem parenthesised_builds {item : Parse α} {ok : α → Prop}
    (h : ∀ s, Legal s.rest → item.Builds ok s) (hs : Legal s.rest) :
    (parenthesised item).Builds (∀ a ∈ ·, ok a) s := by
  refine ensures_parenthesised.2 ⟨fun _ => ⟨by simp, hs.tail⟩, fun _ => ?_⟩
  exact (items_build h hs).imp fun _ _ ha => ⟨fun _ => ⟨ha.1, ha.2.tail⟩, fun _ => trivial⟩

theorem inner_builds {stmt : Parse Stmt} (h : ∀ s, Legal s.rest → stmt.Builds Stmt.Built s)
    (hs : Legal s.rest) : (inner stmt).Builds Stmt.BuiltList s := by
  refine ensures_iff.2 ⟨fun ss t ht => ?_, fun _ _ _ => trivial⟩
  change runInner stmt s = _ at ht
  fun_induction runInner stmt s generalizing ss t with
  | case1 s hc =>
    cases ht
    exact ⟨⟨rfl, starts_nil⟩, hs⟩
  | case2 s hc he => cases ht
  | case3 s hc he a u hu as v hv ih =>
    cases ht
    obtain ⟨ha, hu'⟩ := (h s hs).ok hu
    obtain ⟨has, hv'⟩ := ih hu'.tail _ _ hv
    exact ⟨Stmt.builtList_cons ha has, hv'⟩
  | case4 s hc he a u hu e v hv ih => cases ht
  | case5 s hc he e u hu hk =>
    cases ht
    exact ⟨⟨rfl, starts_nil⟩, hs.suffix (advances_of_run hu).rest⟩
  | case6 s hc he e u hu hk ih => exact ih (hs.suffix (suffix_of_error hu)) _ _ ht

theorem block_builds (h : ∀ s, Legal s.rest → (statement expr).Builds Stmt.Built s)
    (hs : Legal s.rest) (hk : s.current.kind = .openCurly) :
    (block expr).Builds Block.Built s := by
  have ht : s.current.fits [.openCurly] = true := fits_current_kind hs hk (by decide) (by decide)
  exact ensures_block.2 ((inner_builds h hs.tail).imp fun _ _ ha => ⟨built_block ht ha.1, ha.2⟩)

theorem legal_pastSemicolon (hs : Legal s.rest) : Legal s.pastSemicolon.rest := by
  unfold State.pastSemicolon
  split
  · exact hs.tail
  · exact hs

theorem statement_builds (h : BuildsAll expr) (hs : Legal s.rest) :
    (statement expr).Builds Stmt.Built s := by
  simp only [Builds, statement, ensures_bind, ensures_current]
  split
  · next hk =>
    have ht : s.current.fits [.letWord] = true := fits_current_kind hs hk (by decide) (by decide)
    simp only [letStatement, ensures_bind, ensures_current, ensures_expectPeek, ensures_advance,
      ensures_skipSemicolon, ensures_pure]
    refine ⟨fun hn => ⟨fun _ => ?_, fun _ => trivial⟩, fun _ => trivial⟩
    refine (h .lowest _ hs.tail.tail.tail).imp fun _ _ ha => ?_
    exact ⟨built_letBinding ht (wellFormed_peek hs hn) ha.1.1, legal_pastSemicolon ha.2⟩
  · next hk =>
    have ht : s.current.fits [.returnWord] = true :=
      fits_current_kind hs hk (by decide) (by decide)
    simp only [returnStatement, ensures_bind, ensures_current, ensures_advance,
      ensures_skipSemicolon, ensures_pure]
    exact (h .lowest _ hs.tail).imp fun _ _ ha => ⟨built_ret ht ha.1.1, legal_pastSemicolon ha.2⟩
  · simp only [expressionStatement, ensures_bind, ensures_current, ensures_skipSemicolon,
      ensures_pure]
    exact (h .lowest _ hs).imp fun _ _ ha =>
      ⟨built_expr ha.1.2 ha.1.1, legal_pastSemicolon ha.2⟩

theorem parameter_builds (hs : Legal s.rest) :
    parameter.Builds (fun i => i.wellFormed = true) s := by
  simp only [Builds, parameter, ensures_bind, ensures_expectPeek, ensures_pure]
  exact ⟨fun hn => ⟨wellFormed_peek hs hn, hs.tail⟩, fun _ => trivial⟩

theorem function_builds (h : BuildsAll expr) (hs : Legal s.rest)
    (hk : s.current.kind = .fnWord) : (function expr).Builds Expr.Built s := by
  have ht : s.current.fits [.fnWord] = true := fits_current_kind hs hk (by decide) (by decide)
  simp only [Builds, function, ensures_bind, ensures_current, ensures_expectPeek, ensures_pure]
  refine ⟨fun _ => ?_, fun _ => trivial⟩
  refine (parenthesised_builds (fun _ => parameter_builds) hs.tail).imp fun is u his => ?_
  refine ⟨fun hb => ?_, fun _ => trivial⟩
  have hbody := block_builds (s := u.advance) (fun _ => statement_builds h) his.2.tail hb
  exact hbody.imp fun _ _ hx => ⟨built_fn ht his.1 hx.1, hx.2⟩

theorem conditional_builds (h : BuildsAll expr) (hs : Legal s.rest)
    (hk : s.current.kind = .ifWord) : (conditional expr).Builds Expr.Built s := by
  have ht : s.current.fits [.ifWord] = true := fits_current_kind hs hk (by decide) (by decide)
  simp only [Builds, conditional, ensures_bind, ensures_current, ensures_expectPeek,
    ensures_advance, ensures_peek]
  refine ⟨fun _ => ?_, fun _ => trivial⟩
  refine (h .lowest _ hs.tail.tail).imp fun a u ha => ?_
  refine ⟨fun _ => ⟨fun hb => ?_, fun _ => trivial⟩, fun _ => trivial⟩
  have hthen := block_builds (s := u.advance.advance) (fun _ => statement_builds h)
    ha.2.tail.tail hb
  refine hthen.imp fun x v hx => ?_
  split
  · simp only [ensures_bind, ensures_advance, ensures_expectPeek, ensures_pure]
    refine ⟨fun hb => ?_, fun _ => trivial⟩
    have helse := block_builds (s := v.advance.advance) (fun _ => statement_builds h)
      hx.2.tail.tail hb
    exact helse.imp fun _ _ hy => ⟨built_cond_else ht ha.1.1 hx.1 hy.1, hy.2⟩
  · exact ⟨built_cond ht ha.1.1 hx.1, hx.2⟩

theorem operand_builds (h : BuildsAll expr) (hs : Legal s.rest) :
    (operand .standard expr).Builds
      (fun e => e.Built ∧ (Rules.standard.operand s.current.kind).isSome = true) s := by
  simp only [Builds, operand, ensures_bind, ensures_current]
  cases hr : Rules.standard.operand s.current.kind with
  | none => exact ensures_refuse.2 trivial
  | some rule =>
    have hrule : (rule.parse expr).Builds Expr.Built s := by
      obtain rfl | ⟨rfl, hk⟩ | ⟨rfl, hk⟩ | ⟨rfl, hk⟩ | ⟨rfl, hk⟩ := standard_operand hr
      · exact primary_builds hs
      · exact prefixed_builds h hs hk
      · exact grouped_builds h hs
      · exact conditional_builds h hs hk
      · exact function_builds h hs hk
    exact hrule.imp fun _ _ ha => ⟨⟨ha.1, rfl⟩, ha.2⟩

theorem argument_builds (h : BuildsAll expr) (hs : Legal s.rest) :
    (argument expr).Builds Expr.Built s := by
  simp only [Builds, argument, ensures_bind, ensures_advance]
  exact (h .lowest _ hs.tail).imp fun _ _ ha => ⟨ha.1.1, ha.2⟩

theorem operator_builds (h : BuildsAll expr) (hs : Legal s.rest) {rule : OperatorRule} {p : Power}
    (hr : Rules.standard.operator s.current.kind = some (p, rule)) {left : Expr}
    (hl : left.Built) : (rule.parse expr p left).Builds Expr.Built s := by
  obtain ⟨rfl, hk⟩ | ⟨rfl, hk, -⟩ := standard_operator hr
  · have ht : s.current.fits infixes = true :=
      fits_current hs (mem_infixes hk) (by decide) (by decide)
    change (binary expr p left).Builds Expr.Built s
    simp only [Builds, binary, ensures_bind, ensures_current, ensures_advance, ensures_pure]
    exact (h p _ hs.tail).imp fun _ _ ha => ⟨built_binary ht hl ha.1.1, ha.2⟩
  · have ht : s.current.fits [.openParen] = true :=
      fits_current_kind hs hk (by decide) (by decide)
    change (call expr left).Builds Expr.Built s
    simp only [Builds, call, ensures_bind, ensures_current, ensures_pure]
    exact (parenthesised_builds (fun _ => argument_builds h) hs).imp fun _ _ ha =>
      ⟨built_call ht hl (Expr.builtList_of_forall ha.1), ha.2⟩

theorem extend_builds (h : BuildsAll expr) (c : Power) {left : Expr} (hs : Legal s.rest)
    (hl : left.Built) : (extend .standard expr c left).Builds Expr.Built s := by
  refine ensures_iff.2 ⟨fun e t ht => ?_, fun _ _ _ => trivial⟩
  change runExtend .standard expr c left s = _ at ht
  fun_induction runExtend .standard expr c left s generalizing e t with
  | case1 left s hn =>
    cases ht
    exact ⟨hl, hs⟩
  | case2 left s hn hr =>
    cases ht
    exact ⟨hl, hs⟩
  | case3 left s hn p rule hr hp wider u hu ih =>
    obtain ⟨hw, hu'⟩ := (operator_builds (s := s.advance) h hs.tail hr hl).ok hu
    exact ih hu' hw _ _ ht
  | case4 left s hn p rule hr hp e u hu => cases ht
  | case5 left s hn p rule hr hp =>
    cases ht
    exact ⟨hl, hs⟩

theorem expression_builds (levels : Nat) : BuildsAll (expression .standard levels) := by
  induction levels with
  | zero =>
    intro c s hs
    simp only [Builds, expression, ensures_bind, ensures_current, ensures_fail]
  | succ levels ih =>
    intro c s hs
    simp only [Builds, expression, ensures_bind]
    refine (operand_builds ih hs).imp fun _ _ ha => ?_
    exact (extend_builds ih c ha.2 ha.1.1).imp fun _ _ hb => ⟨⟨hb.1, ha.1.2⟩, hb.2⟩

theorem statements_build {stmt : Parse Stmt} (h : ∀ s, Legal s.rest → stmt.Builds Stmt.Built s)
    (hs : Legal s.rest) : Stmt.BuiltList (statements stmt s).1 := by
  fun_induction statements stmt s with
  | case1 s he => exact ⟨rfl, starts_nil⟩
  | case2 s he a t ht as u hu ih =>
    rw [hu] at ih
    obtain ⟨ha, ht'⟩ := (h s hs).ok ht
    exact Stmt.builtList_cons ha (ih ht'.tail)
  | case3 s he e t ht ih => exact ih (hs.suffix (suffix_of_error ht))

end Parse

theorem built_of_parse (source : String) (file : Option String) :
    Stmt.BuiltList (parse source file).1.statements :=
  Parse.statements_build (fun _ => Parse.statement_builds (Parse.expression_builds maxNesting))
    (legal_scan _ _ _)

/-- Whether a source has errors or not, its program is well formed: every node has a token of its
kind and says what that token says, and no statement is a block. Every expression that stands as a
statement begins with a token that an operand may begin with. -/
theorem wellFormed_parse (source : String) (file : Option String) :
    (parse source file).1.wellFormed = true ∧
      ∀ t, Mark.start t ∈ (parse source file).1.marks →
        (Rules.standard.operand t.kind).isSome = true :=
  built_of_parse source file

end FrontEnd
