import FrontEnd.Proofs.Binding
import FrontEnd.Proofs.Ensures
import Mathlib.Algebra.Group.Nat.Defs

namespace FrontEnd

/-- What is said to be wrong is so with this token. -/
def Cause.Holds (c : Cause) (t : Token) : Prop :=
  match c with
  | .unrecognised text => t.kind = .illegal ∧ text = t.text
  | .unexpected expected found => found = t.kind ∧ expected ≠ found
  | .noOperand kind => kind = t.kind ∧ kind ≠ .illegal ∧ Rules.standard.operand kind = none
  | .badInteger text => t.kind = .int ∧ text = t.text ∧ 2 ^ 63 - 1 < Text.decimal text.toList
  | .tooDeep limit => limit = 64

structure SyntaxError.About (e : SyntaxError) (t : Token) : Prop where
  position : e.position = t.position
  cause : e.cause.Holds t

/-- Errors about tokens of an input in the order of the tokens, none of them about a token behind
the first of those that are left. -/
inductive Told (input : List Token) (stop : Span) : List SyntaxError → List Token → Prop
  | nothing : Told input stop [] input
  | skip {es ts us} : Told input stop es ts → us <:+ ts → Told input stop es us
  | error {es ts e} : Told input stop es ts → e.About (ts.headD (.eof stop)) →
      Told input stop (es ++ [e]) ts

section

variable {input ts : List Token} {stop : Span}

theorem headD_mem_input (h : ts <:+ input) : ts.headD (.eof stop) ∈ input ++ [.eof stop] := by
  cases ts with
  | nil => simp
  | cons t ts => exact List.mem_append_left _ (h.subset List.mem_cons_self)

theorem headD_offset_le {us : List Token} (h : ts <:+ input) (hus : us <:+ ts)
    (hinput : (input ++ [Token.eof stop]).Pairwise
      fun t u => t.position.offset < u.position.offset) :
    (ts.headD (.eof stop)).position.offset ≤ (us.headD (.eof stop)).position.offset := by
  obtain ⟨front, rfl⟩ := h
  obtain ⟨mid, rfl⟩ := hus
  cases mid with
  | nil => exact UInt32.le_refl _
  | cons t mid =>
    rw [List.append_assoc, List.pairwise_append] at hinput
    obtain ⟨-, hrest, -⟩ := hinput
    rw [List.cons_append, List.cons_append, List.pairwise_cons, List.append_assoc] at hrest
    refine UInt32.le_of_lt (hrest.1 _ (List.mem_append_right _ ?_))
    exact headD_mem_input (List.suffix_refl us)

end

namespace Told

variable {input ts : List Token} {stop : Span} {es : List SyntaxError}

theorem suffix (h : Told input stop es ts) : ts <:+ input := by
  induction h with
  | nothing => exact List.suffix_refl _
  | skip _ hus ih => exact hus.trans ih
  | error _ _ ih => exact ih

theorem exists_about (h : Told input stop es ts) :
    ∀ e ∈ es, ∃ t ∈ input ++ [.eof stop], e.About t := by
  induction h with
  | nothing => simp
  | skip _ _ ih => exact ih
  | @error es ts e h he ih =>
    intro e' he'
    obtain he' | he' := List.mem_append.1 he'
    · exact ih e' he'
    · obtain rfl := List.mem_singleton.1 he'
      exact ⟨_, headD_mem_input h.suffix, he⟩

/-- Where the tokens of the input stand one behind the other, so do the errors, and none stands
behind the first token that is left. -/
theorem ordered (h : Told input stop es ts)
    (hinput : (input ++ [Token.eof stop]).Pairwise
      fun t u => t.position.offset < u.position.offset) :
    (es.Pairwise fun e e' => e.position.offset ≤ e'.position.offset) ∧
      ∀ e ∈ es, e.position.offset ≤ (ts.headD (.eof stop)).position.offset := by
  induction h with
  | nothing => simp
  | @skip es ts us h hus ih =>
    exact ⟨ih.1, fun e he => UInt32.le_trans (ih.2 e he) (headD_offset_le h.suffix hus hinput)⟩
  | @error es ts e h he ih =>
    obtain ⟨hes, hbound⟩ := ih
    constructor
    · refine List.pairwise_append.2 ⟨hes, List.pairwise_singleton _ _, fun a ha b hb => ?_⟩
      obtain rfl := List.mem_singleton.1 hb
      rw [he.position]
      exact hbound a ha
    · refine List.forall_mem_append.2 ⟨hbound, fun b hb => ?_⟩
      obtain rfl := List.mem_singleton.1 hb
      rw [he.position]
      exact UInt32.le_refl _

end Told

namespace State

variable {input : List Token} {s : State} {e : SyntaxError}

def UpToCurrent (input : List Token) (s : State) : Prop := Told input s.ending s.diagnostics s.rest

def UpToPeek (input : List Token) (s : State) : Prop :=
  Told input s.ending s.diagnostics s.rest.tail

theorem UpToCurrent.peek (h : s.UpToCurrent input) : s.UpToPeek input :=
  h.skip (List.tail_suffix _)

theorem UpToPeek.advance (h : s.UpToPeek input) : s.advance.UpToCurrent input := h

theorem UpToCurrent.record (h : s.UpToCurrent input) (he : e.About s.current) :
    (s.record e).UpToCurrent input :=
  h.error he

theorem UpToPeek.record (h : s.UpToPeek input) (he : e.About s.peek) :
    (s.record e).UpToPeek input :=
  h.error he

theorem UpToPeek.pastSemicolon (h : s.UpToPeek input) : s.pastSemicolon.UpToPeek input := by
  unfold State.pastSemicolon
  split
  · exact h.advance.peek
  · exact h

theorem UpToPeek.recover (h : (s.record e).UpToPeek input) :
    (s.recover e).advance.UpToCurrent input := by
  unfold State.recover
  split
  · exact h.advance.peek.advance
  · exact h.advance

end State

namespace Parse

variable {α : Type} {expr : Power → Parse Expr} {input : List Token} {s : State}

/-- Whatever is answered, the errors so far are about tokens up to the one behind the cursor, the
error of a failure included. -/
abbrev Tells (input : List Token) (p : Parse α) (s : State) : Prop :=
  p.Ensures s (fun _ t => t.UpToPeek input) fun e t => (t.record e).UpToPeek input

abbrev TellsAll (input : List Token) (expr : Power → Parse Expr) : Prop :=
  ∀ c s, s.UpToCurrent input → (expr c).Tells input s

theorem tells_missing {k : TokenKind} (hs : s.UpToPeek input) (hk : s.peek.kind ≠ k) :
    (s.record (missing k s)).UpToPeek input :=
  hs.record ⟨rfl, rfl, hk.symm⟩

theorem tells_refuse (hs : s.UpToCurrent input)
    (hr : Rules.standard.operand s.current.kind = none) : (refuse : Parse α).Tells input s := by
  refine ensures_refuse.2 (hs.record ⟨rfl, ?_⟩).peek
  by_cases hk : s.current.kind = .illegal
  · rw [refusal, if_pos hk]
    exact ⟨hk, rfl⟩
  · rw [refusal, if_neg hk]
    exact ⟨rfl, hk, hr⟩

theorem standard_primary {k : TokenKind} (h : Rules.standard.operand k = some .primary) :
    k = .int ∨ k = .identifier ∨ k = .trueWord ∨ k = .falseWord := by
  cases k <;> simp [Rules.standard] at h ⊢

theorem lt_decimal_of_integer? {cs : List Char} (h : Text.integer? cs = none) :
    2 ^ 63 - 1 < Text.decimal cs := by
  unfold Text.integer? at h
  split at h
  · cases h
  · next hlt => exact Nat.lt_of_not_le hlt

theorem primary_tells (hs : s.UpToCurrent input)
    (hr : Rules.standard.operand s.current.kind = some .primary) : primary.Tells input s := by
  simp only [Tells, primary, ensures_bind, ensures_current]
  obtain hk | hk | hk | hk := standard_primary hr
  · rw [hk]
    cases hv : Text.integer? s.current.text.toList with
    | some v => exact hs.peek
    | none =>
      have he : SyntaxError.About ⟨.badInteger s.current.text, s.current.position⟩ s.current :=
        ⟨rfl, hk, rfl, lt_decimal_of_integer? hv⟩
      exact (hs.record he).peek
  · rw [hk]
    exact hs.peek
  · rw [hk]
    exact hs.peek
  · rw [hk]
    exact hs.peek

theorem items_tell {item : Parse α} (h : ∀ s, s.UpToPeek input → item.Tells input s)
    (hs : s.UpToPeek input) : (items item).Tells input s := by
  refine ensures_of_run fun r t ht => ?_
  change runItems item s = _ at ht
  fun_induction runItems item s generalizing r t with
  | case1 s e u hu =>
    cases ht
    exact (h s hs).error hu
  | case2 s a u hu hc e v hv ih =>
    cases ht
    exact ih ((h s hs).ok hu).advance.peek _ _ hv
  | case3 s a u hu hc as v hv ih =>
    cases ht
    exact ih ((h s hs).ok hu).advance.peek _ _ hv
  | case4 s a u hu hc =>
    cases ht
    exact (h s hs).ok hu

theorem parenthesised_tells {item : Parse α} (h : ∀ s, s.UpToPeek input → item.Tells input s)
    (hs : s.UpToPeek input) : (parenthesised item).Tells input s := by
  refine ensures_parenthesised.2 ⟨fun _ => hs.advance.peek, fun _ => ?_⟩
  exact (items_tell h hs).imp fun _ _ ht => ⟨fun _ => ht.advance.peek, tells_missing ht⟩

/-- The error of a statement that ends the block with the brace it failed at is about that brace or
the token behind it. -/
theorem inner_tells {stmt : Parse Stmt} (h : ∀ s, s.UpToCurrent input → stmt.Tells input s)
    (hs : s.UpToCurrent input) : (inner stmt).Tells input s := by
  refine ensures_of_run fun r t ht => ?_
  change runInner stmt s = _ at ht
  fun_induction runInner stmt s generalizing r t with
  | case1 s hc =>
    cases ht
    exact hs.peek
  | case2 s hc he =>
    cases ht
    have hend : SyntaxError.About ⟨.unexpected .closeCurly .eof, s.current.position⟩ s.current :=
      ⟨rfl, he.symm, by decide⟩
    exact (hs.record hend).peek
  | case3 s hc he a u hu as v hv ih =>
    cases ht
    exact ih ((h s hs).ok hu).advance _ _ hv
  | case4 s hc he a u hu e v hv ih =>
    cases ht
    exact ih ((h s hs).ok hu).advance _ _ hv
  | case5 s hc he e u hu hk =>
    cases ht
    exact (h s hs).error hu
  | case6 s hc he e u hu hk ih => exact ih ((h s hs).error hu).recover _ _ ht

theorem statement_tells (h : TellsAll input expr) (hs : s.UpToCurrent input) :
    (statement expr).Tells input s := by
  simp only [Tells, statement, ensures_bind, ensures_current]
  split
  · simp only [letStatement, ensures_bind, ensures_current, ensures_expectPeek, ensures_advance,
      ensures_skipSemicolon, ensures_pure]
    refine ⟨fun _ => ⟨fun _ => ?_, tells_missing hs.peek.advance.peek⟩, tells_missing hs.peek⟩
    exact (h .lowest _ hs.peek.advance.peek.advance.peek.advance).imp fun _ _ ht => ht.pastSemicolon
  · simp only [returnStatement, ensures_bind, ensures_current, ensures_advance,
      ensures_skipSemicolon, ensures_pure]
    exact (h .lowest _ hs.peek.advance).imp fun _ _ ht => ht.pastSemicolon
  · simp only [expressionStatement, ensures_bind, ensures_current, ensures_skipSemicolon,
      ensures_pure]
    exact (h .lowest _ hs).imp fun _ _ ht => ht.pastSemicolon

theorem block_tells (h : TellsAll input expr) (hs : s.UpToPeek input) :
    (block expr).Tells input s :=
  ensures_block.2 (inner_tells (fun _ => statement_tells h) hs.advance)

theorem prefixed_tells (h : TellsAll input expr) (hs : s.UpToPeek input) :
    (prefixed expr).Tells input s := by
  simp only [Tells, prefixed, ensures_bind, ensures_current, ensures_advance, ensures_pure]
  exact h .unary _ hs.advance

theorem grouped_tells (h : TellsAll input expr) (hs : s.UpToPeek input) :
    (grouped expr).Tells input s := by
  simp only [Tells, grouped, ensures_bind, ensures_advance, ensures_expectPeek, ensures_pure]
  refine (h .lowest _ hs.advance).imp fun _ t ht => ?_
  exact ⟨fun _ => ht.advance.peek, tells_missing ht⟩

theorem conditional_tells (h : TellsAll input expr) (hs : s.UpToPeek input) :
    (conditional expr).Tells input s := by
  simp only [Tells, conditional, ensures_bind, ensures_current, ensures_expectPeek,
    ensures_advance, ensures_peek]
  refine ⟨fun _ => ?_, tells_missing hs⟩
  refine (h .lowest _ hs.advance.peek.advance).imp fun _ t ht => ?_
  refine ⟨fun _ => ⟨fun _ => ?_, tells_missing ht.advance.peek⟩, tells_missing ht⟩
  refine (block_tells h ht.advance.peek.advance.peek).imp fun _ u hu => ?_
  split
  · simp only [ensures_bind, ensures_advance, ensures_expectPeek, ensures_pure]
    refine ⟨fun _ => ?_, tells_missing hu.advance.peek⟩
    exact block_tells h hu.advance.peek.advance.peek
  · exact hu

theorem parameter_tells (hs : s.UpToPeek input) : parameter.Tells input s := by
  simp only [Tells, parameter, ensures_bind, ensures_expectPeek, ensures_pure]
  exact ⟨fun _ => hs.advance.peek, tells_missing hs⟩

theorem function_tells (h : TellsAll input expr) (hs : s.UpToPeek input) :
    (function expr).Tells input s := by
  simp only [Tells, function, ensures_bind, ensures_current, ensures_expectPeek, ensures_pure]
  refine ⟨fun _ => ?_, tells_missing hs⟩
  refine (parenthesised_tells (fun _ => parameter_tells) hs.advance.peek).imp fun _ t ht => ?_
  exact ⟨fun _ => block_tells h ht.advance.peek, tells_missing ht⟩

theorem operand_tells (h : TellsAll input expr) (hs : s.UpToCurrent input) :
    (operand .standard expr).Tells input s := by
  simp only [Tells, operand, ensures_bind, ensures_current]
  cases hr : Rules.standard.operand s.current.kind with
  | none => exact tells_refuse hs hr
  | some rule =>
    cases rule with
    | primary => exact primary_tells hs hr
    | prefixed => exact prefixed_tells h hs.peek
    | grouped => exact grouped_tells h hs.peek
    | conditional => exact conditional_tells h hs.peek
    | function => exact function_tells h hs.peek

theorem argument_tells (h : TellsAll input expr) (hs : s.UpToPeek input) :
    (argument expr).Tells input s := by
  simp only [Tells, argument, ensures_bind, ensures_advance]
  exact h .lowest _ hs.advance

theorem operator_tells (h : TellsAll input expr) (hs : s.UpToPeek input) (rule : OperatorRule)
    (p : Power) (left : Expr) : (rule.parse expr p left).Tells input s := by
  cases rule with
  | binary =>
    change (binary expr p left).Tells input s
    simp only [Tells, binary, ensures_bind, ensures_current, ensures_advance, ensures_pure]
    exact h p _ hs.advance
  | call =>
    change (call expr left).Tells input s
    simp only [Tells, call, ensures_bind, ensures_current, ensures_pure]
    exact parenthesised_tells (fun _ => argument_tells h) hs

theorem extend_tells (h : TellsAll input expr) (c : Power) (left : Expr)
    (hs : s.UpToPeek input) : (extend .standard expr c left).Tells input s := by
  refine ensures_of_run fun r t ht => ?_
  change runExtend .standard expr c left s = _ at ht
  fun_induction runExtend .standard expr c left s generalizing r t with
  | case1 left s hn =>
    cases ht
    exact hs
  | case2 left s hn hr =>
    cases ht
    exact hs
  | case3 left s hn p rule hr hp wider u hu ih =>
    exact ih ((operator_tells h hs.advance.peek rule p left).ok hu) _ _ ht
  | case4 left s hn p rule hr hp e u hu =>
    cases ht
    exact (operator_tells h hs.advance.peek rule p left).error hu
  | case5 left s hn p rule hr hp =>
    cases ht
    exact hs

theorem expression_tells (input : List Token) (levels : Nat) :
    TellsAll input (expression .standard levels) := by
  induction levels with
  | zero =>
    intro c s hs
    simp only [Tells, expression, ensures_bind, ensures_current, ensures_fail]
    have he : SyntaxError.About ⟨.tooDeep maxNesting, s.current.position⟩ s.current := ⟨rfl, rfl⟩
    exact (hs.record he).peek
  | succ levels ih =>
    intro c s hs
    simp only [Tells, expression, ensures_bind]
    exact (operand_tells ih hs).imp fun left _ ht => extend_tells ih c left ht

theorem statements_tell {stmt : Parse Stmt} (h : ∀ s, s.UpToCurrent input → stmt.Tells input s)
    (hs : s.UpToCurrent input) : (statements stmt s).2.UpToCurrent input := by
  fun_induction statements stmt s with
  | case1 s he => exact hs
  | case2 s he a t ht as u hu ih =>
    rw [hu] at ih
    exact ih ((h s hs).ok ht).advance
  | case3 s he e t ht ih => exact ih ((h s hs).error ht).recover

end Parse

end FrontEnd
