import FrontEnd.Proofs.Acceptance
import FrontEnd.Proofs.Ensures
import FrontEnd.Tree.Marks
import Mathlib.Data.List.NodupEquivFin

namespace FrontEnd

namespace Token

/-- Both marks that a token can give. A start stands before a node of the same token. -/
def marks (t : Token) : List Mark := [.start t, .node t]

end Token

/-- The marks were read off tokens on the way from the first list to the second. -/
def ReadOff (ms : List Mark) (ts us : List Token) : Prop :=
  ∃ vs, ts = vs ++ us ∧ ms.Sublist (vs.flatMap Token.marks)

namespace ReadOff

variable {ms ns : List Mark} {ts us vs : List Token}

theorem skip (h : us <:+ ts) : ReadOff [] ts us := by
  obtain ⟨vs, rfl⟩ := h
  exact ⟨vs, rfl, List.nil_sublist _⟩

theorem append (h : ReadOff ms ts us) (k : ReadOff ns us vs) : ReadOff (ms ++ ns) ts vs := by
  obtain ⟨as, rfl, has⟩ := h
  obtain ⟨bs, rfl, hbs⟩ := k
  refine ⟨as ++ bs, by simp, ?_⟩
  rw [List.flatMap_append]
  exact has.append hbs

theorem before (h : ReadOff ms ts us) (k : vs <:+ us) : ReadOff ms ts vs := by
  simpa using h.append (skip k)

theorem behind (h : us <:+ ts) (k : ReadOff ms us vs) : ReadOff ms ts vs :=
  (skip h).append k

theorem current {s : State} (h : s.current.kind ≠ .eof) :
    ReadOff [.node s.current] s.rest s.rest.tail := by
  obtain ⟨t, ts, hs⟩ := List.exists_cons_of_ne_nil (State.rest_ne_nil_of_current h)
  refine ⟨[t], by simp [hs], ?_⟩
  simp [State.current, hs, Token.marks]

/-- The first token of an expression is read once, though it also starts the statement. -/
theorem start {s : State} {u : Token} (h : ReadOff (.node u :: ms) s.rest us) :
    ReadOff (.start s.current :: .node u :: ms) s.rest us := by
  obtain ⟨vs, hvs, hms⟩ := h
  cases vs with
  | nil => cases hms
  | cons v vs =>
    have hv : s.current = v := by simp [State.current, hvs]
    refine ⟨v :: vs, hvs, ?_⟩
    rw [hv]
    simp only [List.flatMap_cons, Token.marks, List.cons_append, List.nil_append] at hms ⊢
    rw [List.cons_sublist_cons]
    cases hms with
    | cons _ h => exact h

end ReadOff

namespace Parse

variable {α : Type} {expr : Power → Parse Expr} {s : State}

/-- The answer is made of tokens from the current one on, up to the one that the cursor is left
on. -/
def InOrder (p : Parse α) (marks : α → List Mark) (s : State) : Prop :=
  p.Ensures s (fun a t => ReadOff (marks a) s.rest t.rest.tail) fun _ _ => True

def InOrderBehind (p : Parse α) (marks : α → List Mark) (s : State) : Prop :=
  p.Ensures s (fun a t => ReadOff (marks a) s.rest.tail t.rest.tail) fun _ _ => True

theorem primary_inOrder : primary.InOrder Expr.marks s := by
  simp only [InOrder, primary, ensures_bind, ensures_current]
  split
  · next hk =>
    split
    · exact ReadOff.current (by simp [hk])
    · trivial
  · next hk => exact ReadOff.current (by simp [hk])
  · next hk => exact ReadOff.current (by simp [hk])
  · next hk => exact ReadOff.current (by simp [hk])
  · exact ensures_refuse.2 trivial

theorem prefixed_inOrder (h : ∀ c s, (expr c).InOrder Expr.marks s) (hs : s.current.kind ≠ .eof) :
    (prefixed expr).InOrder Expr.marks s := by
  simp only [InOrder, prefixed, ensures_bind, ensures_current, ensures_advance, ensures_pure]
  exact (h .unary s.advance).imp fun _ _ hr => (ReadOff.current hs).append hr

theorem grouped_inOrder (h : ∀ c s, (expr c).InOrder Expr.marks s) :
    (grouped expr).InOrder Expr.marks s := by
  simp only [InOrder, grouped, ensures_bind, ensures_advance, ensures_expectPeek, ensures_pure]
  refine (h .lowest s.advance).imp fun _ _ hr => ⟨fun _ => ?_, fun _ => trivial⟩
  exact (hr.behind (List.tail_suffix _)).before (List.tail_suffix _)

theorem items_keep {item : Parse α} {marks : α → List Mark} (h : ∀ s, item.InOrderBehind marks s) :
    (items item).InOrderBehind (List.flatMap marks) s := by
  refine ensures_iff.2 ⟨fun as t ht => ?_, fun _ _ _ => trivial⟩
  change runItems item s = _ at ht
  fun_induction runItems item s generalizing as t with
  | case1 s e u hu => cases ht
  | case2 s a u hu hc e v hv ih => cases ht
  | case3 s a u hu hc as v hv ih =>
    cases ht
    exact ((h s).ok hu).append ((ih _ _ hv).behind (List.tail_suffix _))
  | case4 s a u hu hc =>
    cases ht
    simpa using (h s).ok hu

theorem parenthesised_inOrder {item : Parse α} {marks : α → List Mark}
    (h : ∀ s, item.InOrderBehind marks s) :
    (parenthesised item).InOrderBehind (List.flatMap marks) s := by
  refine ensures_parenthesised.2 ⟨fun _ => ReadOff.skip (List.tail_suffix _), fun _ => ?_⟩
  refine (items_keep h).imp fun _ _ hr => ⟨fun _ => ?_, fun _ => trivial⟩
  exact hr.before (List.tail_suffix _)

theorem suffix_of_error {p : Parse α} {e : SyntaxError} {t : State}
    (h : p.run s = (.error e, t)) : (t.recover e).advance.rest <:+ s.rest :=
  (((advances_of_run h).trans (State.advances_recover t e)).trans (State.advances_advance _)).rest

theorem inner_inOrder {stmt : Parse Stmt} (h : ∀ s, stmt.InOrder Stmt.marks s) :
    (inner stmt).Ensures s (fun ss t => ReadOff (Stmt.marksList ss) s.rest t.rest)
      fun _ _ => True := by
  refine ensures_iff.2 ⟨fun ss t ht => ?_, fun _ _ _ => trivial⟩
  change runInner stmt s = _ at ht
  fun_induction runInner stmt s generalizing ss t with
  | case1 s hc =>
    cases ht
    exact ReadOff.skip (List.suffix_refl _)
  | case2 s hc he => cases ht
  | case3 s hc he a u hu as v hv ih =>
    cases ht
    exact ((h s).ok hu).append (ih _ _ hv)
  | case4 s hc he a u hu e v hv ih => cases ht
  | case5 s hc he e u hu hk =>
    cases ht
    exact ReadOff.skip (advances_of_run hu).rest
  | case6 s hc he e u hu hk ih => exact (ih _ _ ht).behind (suffix_of_error hu)

theorem block_inOrder (h : ∀ s, (statement expr).InOrder Stmt.marks s)
    (hs : s.current.kind ≠ .eof) : (block expr).InOrder Block.marks s := by
  refine ensures_block.2 ((inner_inOrder h).imp fun ss t hr => ?_)
  exact ((ReadOff.current hs).append hr).before (List.tail_suffix _)

theorem pastSemicolon_suffix (s : State) : s.pastSemicolon.rest.tail <:+ s.rest.tail := by
  unfold State.pastSemicolon
  split
  · exact List.tail_suffix _
  · exact List.suffix_refl _

theorem statement_inOrder (h : ∀ s, (expr .lowest).InOrder Expr.marks s) :
    (statement expr).InOrder Stmt.marks s := by
  simp only [InOrder, statement, ensures_bind, ensures_current]
  split
  · next hk =>
    have hs : s.current.kind ≠ .eof := by simp [show s.current.kind = .letWord from hk]
    simp only [letStatement, ensures_bind, ensures_current, ensures_expectPeek, ensures_advance,
      ensures_skipSemicolon, ensures_pure]
    refine ⟨fun hn => ⟨fun _ => ?_, fun _ => trivial⟩, fun _ => trivial⟩
    refine (h _).imp fun e u hr => ?_
    have hname : ReadOff [.node s.peek] s.rest.tail s.rest.tail.tail :=
      ReadOff.current (s := s.advance) (by simp [hn])
    refine ReadOff.before ?_ (pastSemicolon_suffix u)
    exact ((ReadOff.current hs).append hname).append (hr.behind (List.tail_suffix _))
  · next hk =>
    have hs : s.current.kind ≠ .eof := by simp [show s.current.kind = .returnWord from hk]
    simp only [returnStatement, ensures_bind, ensures_current, ensures_advance,
      ensures_skipSemicolon, ensures_pure]
    exact (h _).imp fun e u hr => ((ReadOff.current hs).append hr).before (pastSemicolon_suffix u)
  · simp only [expressionStatement, ensures_bind, ensures_current, ensures_skipSemicolon,
      ensures_pure]
    refine (h s).imp fun e u hr => ?_
    obtain ⟨t, ms, he⟩ := e.marks_eq_cons
    rw [he] at hr
    rw [Stmt.marks, he]
    exact hr.start.before (pastSemicolon_suffix u)

theorem parameter_inOrder : parameter.InOrderBehind (fun i => [i.mark]) s := by
  simp only [InOrderBehind, parameter, ensures_bind, ensures_expectPeek, ensures_pure]
  exact ⟨fun hn => ReadOff.current (s := s.advance) (by simp [hn]), fun _ => trivial⟩

theorem function_inOrder (h : ∀ s, (statement expr).InOrder Stmt.marks s)
    (hs : s.current.kind ≠ .eof) : (function expr).InOrder Expr.marks s := by
  simp only [InOrder, function, ensures_bind, ensures_current, ensures_expectPeek, ensures_pure]
  refine ⟨fun _ => ?_, fun _ => trivial⟩
  refine (parenthesised_inOrder fun _ => parameter_inOrder).imp fun is u hr => ?_
  refine ⟨fun hb => ?_, fun _ => trivial⟩
  refine (block_inOrder h (s := u.advance) (by simp [hb])).imp fun b t hb => ?_
  have his : is.flatMap (fun i => [i.mark]) = is.map Ident.mark := List.map_eq_flatMap.symm
  rw [his] at hr
  exact (ReadOff.current hs).append ((hr.behind (List.tail_suffix _)).append hb)

theorem conditional_inOrder (h : ∀ c s, (expr c).InOrder Expr.marks s)
    (hstmt : ∀ s, (statement expr).InOrder Stmt.marks s) (hs : s.current.kind ≠ .eof) :
    (conditional expr).InOrder Expr.marks s := by
  simp only [InOrder, conditional, ensures_bind, ensures_current, ensures_expectPeek,
    ensures_advance, ensures_peek]
  refine ⟨fun _ => ?_, fun _ => trivial⟩
  refine (h .lowest _).imp fun c u hc => ?_
  refine ⟨fun _ => ⟨fun ho => ?_, fun _ => trivial⟩, fun _ => trivial⟩
  refine (block_inOrder hstmt (s := u.advance.advance) (by simp [ho])).imp fun b v hb => ?_
  have hthen : ReadOff (.node s.current :: (c.marks ++ b.marks)) s.rest v.rest.tail :=
    (ReadOff.current hs).append ((hc.behind (List.tail_suffix _)).append
      (hb.behind (List.tail_suffix _)))
  split
  · simp only [ensures_bind, ensures_advance, ensures_expectPeek, ensures_pure]
    refine ⟨fun ho => ?_, fun _ => trivial⟩
    refine (block_inOrder hstmt (s := v.advance.advance) (by simp [ho])).imp fun d w hd => ?_
    simpa [Expr.marks] using hthen.append (hd.behind (List.tail_suffix _))
  · exact hthen

theorem marksList_eq_flatMap (es : List Expr) : Expr.marksList es = es.flatMap Expr.marks := by
  induction es with
  | nil => rfl
  | cons e es ih => simp [Expr.marksList, ih]

theorem operand_inOrder (h : ∀ c s, (expr c).InOrder Expr.marks s)
    (hstmt : ∀ s, (statement expr).InOrder Stmt.marks s) :
    (operand .standard expr).InOrder Expr.marks s := by
  simp only [InOrder, operand, ensures_bind, ensures_current]
  cases hr : Rules.standard.operand s.current.kind with
  | none => exact ensures_refuse.2 trivial
  | some rule =>
    have hs : s.current.kind ≠ .eof := by
      intro hk
      rw [hk] at hr
      cases hr
    cases rule with
    | primary => exact primary_inOrder
    | prefixed => exact prefixed_inOrder h hs
    | grouped => exact grouped_inOrder h
    | conditional => exact conditional_inOrder h hstmt hs
    | function => exact function_inOrder hstmt hs

theorem operator_inOrder (h : ∀ c s, (expr c).InOrder Expr.marks s) {ts : List Token} {left : Expr}
    (hl : ReadOff left.marks ts s.rest) (hs : s.current.kind ≠ .eof) (rule : OperatorRule)
    (p : Power) :
    (rule.parse expr p left).Ensures s (fun e t => ReadOff e.marks ts t.rest.tail)
      fun _ _ => True := by
  cases rule with
  | binary =>
    change (binary expr p left).Ensures s _ _
    simp only [binary, ensures_bind, ensures_current, ensures_advance, ensures_pure]
    exact (h p s.advance).imp fun r t hr => hl.append ((ReadOff.current hs).append hr)
  | call =>
    have harg (s : State) : (argument expr).InOrderBehind Expr.marks s := by
      simp only [InOrderBehind, argument, ensures_bind, ensures_advance]
      exact h .lowest s.advance
    change (call expr left).Ensures s _ _
    simp only [call, ensures_bind, ensures_current, ensures_pure]
    refine (parenthesised_inOrder harg).imp fun es t hr => ?_
    rw [← marksList_eq_flatMap] at hr
    exact hl.append ((ReadOff.current hs).append hr)

theorem extend_inOrder (h : ∀ c s, (expr c).InOrder Expr.marks s) {ts : List Token} {left : Expr}
    (hl : ReadOff left.marks ts s.rest.tail) (c : Power) :
    (extend .standard expr c left).Ensures s (fun e t => ReadOff e.marks ts t.rest.tail)
      fun _ _ => True := by
  refine ensures_iff.2 ⟨fun e t ht => ?_, fun _ _ _ => trivial⟩
  change runExtend .standard expr c left s = _ at ht
  fun_induction runExtend .standard expr c left s generalizing e t with
  | case1 left s hs =>
    cases ht
    exact hl
  | case2 left s hs hr =>
    cases ht
    exact hl
  | case3 left s hs p rule hr hp wider u hu ih =>
    have heof : s.peek.kind ≠ .eof := by
      intro hk
      rw [hk] at hr
      cases hr
    exact ih ((operator_inOrder (s := s.advance) h hl heof rule p).ok hu) _ _ ht
  | case4 left s hs p rule hr hp e' u hu => cases ht
  | case5 left s hs p rule hr hp =>
    cases ht
    exact hl

theorem expression_inOrder (levels : Nat) (c : Power) (s : State) :
    (expression .standard levels c).InOrder Expr.marks s := by
  induction levels generalizing c s with
  | zero =>
    simp only [InOrder, expression, ensures_bind, ensures_current, ensures_fail]
  | succ levels ih =>
    simp only [InOrder, expression, ensures_bind]
    exact (operand_inOrder ih fun _ => statement_inOrder fun _ => ih .lowest _).imp
      fun l u hl => extend_inOrder ih hl c

theorem statements_keep {stmt : Parse Stmt} (h : ∀ s, stmt.InOrder Stmt.marks s) (s : State) :
    ReadOff (Stmt.marksList (statements stmt s).1) s.rest (statements stmt s).2.rest := by
  fun_induction statements stmt s with
  | case1 s hs => exact ReadOff.skip (List.suffix_refl _)
  | case2 s hs a u hu as v hv ih =>
    rw [hv] at ih
    exact ((h s).ok hu).append ih
  | case3 s hs e u hu ih => exact ih.behind (suffix_of_error hu)

end Parse

open Parse

theorem sublist_marks_of_parse (source : String) (file : Option String) :
    (parse source file).1.marks.Sublist ((tokenize source file).flatMap Token.marks) := by
  obtain ⟨ts, hts, hms⟩ := statements_keep
    (fun _ => statement_inOrder fun _ => expression_inOrder maxNesting .lowest _)
    (State.ofSource source file)
  refine hms.trans ?_
  change scan _ 0 source.toList = _ at hts
  rw [tokenize, hts, List.append_assoc, List.flatMap_append]
  exact List.sublist_append_left _ _

theorem getElem?_flatMap_marks {ts : List Token} {i : Nat} {m : Mark}
    (h : (ts.flatMap Token.marks)[i]? = some m) :
    ts[i / 2]? = some m.token ∧
      (i % 2 = 0 ∧ m = .start m.token ∨ i % 2 = 1 ∧ m = .node m.token) := by
  induction ts generalizing i with
  | nil => simp at h
  | cons t ts ih =>
    match i, h with
    | 0, h =>
      cases h
      exact ⟨rfl, .inl ⟨rfl, rfl⟩⟩
    | 1, h =>
      cases h
      exact ⟨rfl, .inr ⟨rfl, rfl⟩⟩
    | i + 2, h =>
      have hi : (i + 2) / 2 = i / 2 + 1 := by omega
      obtain ⟨ht, hm⟩ := ih h
      rw [hi, List.getElem?_cons_succ, Nat.add_mod_right]
      exact ⟨ht, hm⟩

theorem filterMap_kept?_marks (ts : List Token) :
    (ts.flatMap Token.marks).filterMap Mark.kept? = ts := by
  induction ts with
  | nil => rfl
  | cons t ts ih =>
    simp only [List.flatMap_cons, Token.marks, List.cons_append, List.nil_append,
      List.filterMap_cons, Mark.kept?, ih]

/-- The tokens that a program keeps are tokens of its source in the same order. Every mark has a
place in the source, later than those of the marks before it, but for the first token of a
statement, which may be the first one that its expression keeps. -/
theorem tokens_in_order (source : String) (file : Option String) :
    (parse source file).1.tokens.Sublist (tokenize source file) ∧
      ∃ place : Nat → Nat, ∀ i m, (parse source file).1.marks[i]? = some m →
        (tokenize source file)[place i]? = some m.token ∧
          ∀ j n, i < j → (parse source file).1.marks[j]? = some n → place i < place j ∨
            place i = place j ∧ m = .start m.token ∧ n = .node n.token := by
  have hmarks := sublist_marks_of_parse source file
  constructor
  · simpa only [Program.tokens, filterMap_kept?_marks] using hmarks.filterMap Mark.kept?
  · obtain ⟨f, hf⟩ := List.sublist_iff_exists_orderEmbedding_getElem?_eq.1 hmarks
    refine ⟨fun i => f i / 2, fun i m hm => ?_⟩
    rw [hf] at hm
    obtain ⟨ht, hkind⟩ := getElem?_flatMap_marks hm
    refine ⟨ht, fun j n hij hn => ?_⟩
    rw [hf] at hn
    obtain ⟨-, hkind'⟩ := getElem?_flatMap_marks hn
    have hlt : f i < f j := f.lt_iff_lt.2 hij
    change f i / 2 < f j / 2 ∨ f i / 2 = f j / 2 ∧ _
    by_cases heq : f i / 2 = f j / 2
    · have hi : f i % 2 = 0 := by omega
      have hj : f j % 2 = 1 := by omega
      have hm' : m = .start m.token := (hkind.resolve_right fun h => by omega).2
      have hn' : n = .node n.token := (hkind'.resolve_left fun h => by omega).2
      exact .inr ⟨heq, hm', hn'⟩
    · exact .inl (by omega)

end FrontEnd
