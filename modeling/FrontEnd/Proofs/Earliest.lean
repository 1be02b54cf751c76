import FrontEnd.Proofs.Acceptance
import FrontEnd.Proofs.Viable

namespace FrontEnd.Parse

open Grammar

variable {α : Type} {expr expr' : Power → Parse Expr} {stmt stmt' : Parse Stmt} {s : State}
  {x : Token} {rest : List Token}

instance : Nonempty Ident := ⟨⟨sample .identifier, ""⟩⟩

instance : Nonempty Expr := ⟨.ident ⟨sample .identifier, ""⟩⟩

instance : Nonempty Block := ⟨.mk (sample .openCurly) []⟩

abbrev ObeysTerms (expr expr' : Power → Parse Expr) : Prop := ∀ c s rest,
  Obeys (expr c) (expr' c) (fun ts after => Term (floor c) ts ∧ pull s after ≤ c) s [] rest

theorem primary_obeys : Obeys primary primary (fun ts _ => Term .call ts) s [] rest := by
  have hv : Viable (fun ts (_ : List Token) => Term .call ts) [] :=
    ⟨[sample .identifier], [], .name rfl⟩
  refine .current rfl ?_
  rw [List.nil_append]
  split
  · next hk =>
    split
    · next v hint =>
      obtain ⟨t, more, rfl, ht⟩ := State.eq_cons_of_current hk (by decide)
      exact .push (obeys_pure (.number ht (integer?_eq_some hint).1))
    · exact obeys_fail _ hv rfl
  · next hk =>
    obtain ⟨t, more, rfl, ht⟩ := State.eq_cons_of_current hk (by decide)
    exact .push (obeys_pure (.name ht))
  · next hk =>
    obtain ⟨t, more, rfl, ht⟩ := State.eq_cons_of_current hk (by decide)
    exact .push (obeys_pure (.yes ht))
  · next hk =>
    obtain ⟨t, more, rfl, ht⟩ := State.eq_cons_of_current hk (by decide)
    exact .push (obeys_pure (.no ht))
  · exact obeys_refuse hv

theorem items_obeys [Nonempty α] {item item' : Parse α} {P L : List Token → Prop}
    (h : ∀ x rest, Obeys item item' (fun ts _ => P ts) s [x] rest) (hone : ∀ ts, P ts → L ts)
    (hmore : ∀ ts comma us, P ts → comma.kind = .comma → L us → L (ts ++ comma :: us)) :
    Obeys (items item) (items item') (fun ts _ => L ts) s [x] rest := by
  induction hl : rest.length using Nat.strongRecOn generalizing x rest with
  | ind l ih =>
    refine .transport ?_ (agrees_of_run (run_items item _) rfl) fun s' rest' _ =>
      agrees_of_run (run_items item' _) rfl
    refine (h x rest).bind (fun ts after hp => viable_of after (hone ts hp)) ?_
    intro a ts last after hr hp
    refine .peek ?_
    split
    · next hc =>
      obtain ⟨comma, more, rfl, hcomma⟩ := State.eq_cons_of_current hc (by decide)
      have hlt : more.length < l := by
        rw [← hl, hr, List.length_append, List.length_cons]
        omega
      refine .advance (.push ((ih more.length hlt rfl).seq fun as us last after hus => ?_))
      exact obeys_pure (by simpa using hmore ts comma us hp hcomma hus)
    · exact obeys_pure (by simpa using hone ts hp)

theorem parenthesised_obeys [Nonempty α] {item item' : Parse α} {P L : List Token → Prop}
    (h : ∀ x rest, Obeys item item' (fun ts _ => P ts) s [x] rest) (hone : ∀ ts, P ts → L ts)
    (hmore : ∀ ts comma us, P ts → comma.kind = .comma → L us → L (ts ++ comma :: us)) :
    Obeys (parenthesised item) (parenthesised item')
      (fun ts _ => ∃ us c, ts = us ++ [c] ∧ (us = [] ∨ L us) ∧ c.kind = .closeParen)
      s [x] rest := by
  refine .peek ?_
  split
  · next hc =>
    obtain ⟨c, more, rfl, hc⟩ := State.eq_cons_of_current hc (by decide)
    exact .advance (.push (obeys_pure ⟨[], c, rfl, .inl rfl, hc⟩))
  · refine (items_obeys h hone hmore).seq fun as us last after hus => ?_
    exact .expectPeek (by decide) fun c more hc => obeys_pure ⟨us, c, rfl, .inr hus, hc⟩

theorem prefixed_obeys (h : ObeysTerms expr expr') {t : Token}
    (ht : t.kind = .dash ∨ t.kind = .not) :
    Obeys (prefixed expr) (prefixed expr') (fun ts after => Term .unary ts ∧ pull s after ≤ .unary)
      s [] (t :: rest) := by
  refine .push (.current rfl (.advance ((h .unary s rest).seq ?_)))
  rintro e ts last after ⟨he, hp⟩
  exact obeys_pure ⟨by simpa using Term.unary ht he, hp⟩

theorem grouped_obeys (h : ObeysTerms expr expr') {o : Token} (ho : o.kind = .openParen) :
    Obeys (grouped expr) (grouped expr') (fun ts _ => Term .call ts) s [] (o :: rest) := by
  refine .push (.advance ((h .lowest s rest).seq ?_))
  rintro e ts last after ⟨he, -⟩
  exact .expectPeek (by decide) fun c more hc => obeys_pure (.group ho he hc)

def Ended (ts : List Token) : Prop :=
  Simple ts ∨ ∃ us semi, ts = us ++ [semi] ∧ Simple us ∧ semi.kind = .semicolon

theorem Ended.sentence {ts us : List Token} (h : Ended ts) (hs : Sentence us) :
    Sentence (ts ++ us) := by
  obtain h | ⟨ts, semi, rfl, h, hsemi⟩ := h
  · exact .bare h hs
  · rw [List.append_assoc]
    exact .ended h hsemi hs

theorem Ended.ne_nil {ts : List Token} (h : Ended ts) : ts ≠ [] := by
  obtain h | ⟨ts, semi, rfl, -, -⟩ := h
  · obtain ⟨a, n, h⟩ := h.clause
    obtain ⟨t, us, rfl, -⟩ := h.starts
    exact List.cons_ne_nil _ _
  · simp

theorem inner_obeys (h : ∀ s rest, Obeys stmt stmt' (fun ts _ => Ended ts) s [] rest) :
    Obeys (inner stmt) (inner stmt')
      (fun ts _ => ∃ us c, ts = us ++ [c] ∧ Sentence us ∧ c.kind = .closeCurly) s [] rest := by
  induction hl : rest.length using Nat.strongRecOn generalizing rest with
  | ind l ih =>
    refine .transport ?_ (inner_agrees stmt _) fun s' rest' _ => inner_agrees stmt' _
    have hv (us : List Token) (hus : Sentence us) :
        Viable (fun ts (_ : List Token) => ∃ us c, ts = us ++ [c] ∧ Sentence us ∧
          c.kind = .closeCurly) us :=
      ⟨[sample .closeCurly], [], us, _, rfl, hus, rfl⟩
    refine .current rfl ?_
    rw [List.nil_append]
    split
    · next hc =>
      obtain ⟨c, more, rfl, hc⟩ := State.eq_cons_of_current hc (by decide)
      exact .push (obeys_pure ⟨[], c, rfl, .nil, hc⟩)
    · split
      · exact obeys_fail _ (hv [] .nil) rfl
      · refine (h s rest).bind (fun ts _ hts => hv ts ?_) fun a ts last after hr hts => ?_
        · simpa using hts.sentence .nil
        · have hlt : after.length < l := by
            have hpos := List.length_pos_iff.2 hts.ne_nil
            rw [← hl, hr, List.length_append]
            omega
          refine .advance ((ih after.length hlt rfl).seq ?_)
          rintro as _ last' after' ⟨us, c, rfl, hs, hc⟩
          exact obeys_pure ⟨ts ++ us, c, by simp, hts.sentence hs, hc⟩

theorem skipSemicolon_obeys {ts : List Token} (h : Simple ts) (a : Stmt) :
    Obeys (skipSemicolon >>= fun _ => pure a) (skipSemicolon >>= fun _ => pure a)
      (fun us _ => Ended (ts ++ us)) s [x] rest := by
  have hrun (s : State) : (skipSemicolon >>= fun _ => pure a : Parse Stmt).run s =
      (peek >>= fun t => if t.kind = .semicolon then advance >>= fun _ => pure a
        else pure a : Parse Stmt).run s := by
    rw [run_bind, run_skipSemicolon, run_bind, run_peek]
    by_cases hk : s.peek.kind = .semicolon
    · simp [hk, run_bind]
    · simp [hk]
  refine .transport ?_ (agrees_of_run (hrun _) rfl) fun s' rest' _ => agrees_of_run (hrun _) rfl
  refine .peek ?_
  split
  · next hk =>
    obtain ⟨semi, more, rfl, hsemi⟩ := State.eq_cons_of_current hk (by decide)
    exact .advance (.push (obeys_pure (.inr ⟨ts, semi, rfl, h, hsemi⟩)))
  · exact obeys_pure (.inl (by simpa using h))

theorem statement_obeys (h : ObeysTerms expr expr') (s : State) (rest : List Token) :
    Obeys (statement expr) (statement expr') (fun ts _ => Ended ts) s [] rest := by
  refine .current rfl ?_
  rw [List.nil_append]
  split
  · next hk =>
    obtain ⟨t, more, rfl, ht⟩ := State.eq_cons_of_current hk (by decide)
    refine .push (.current rfl (.expectPeek (by decide) fun name more hname => ?_))
    refine .expectPeek (by decide) fun eq more heq => .advance ((h .lowest s more).seq ?_)
    rintro e ts last after ⟨he, -⟩
    exact skipSemicolon_obeys (.letBinding ht hname heq he) _
  · next hk =>
    obtain ⟨t, more, rfl, ht⟩ := State.eq_cons_of_current hk (by decide)
    refine .push (.current rfl (.advance ((h .lowest s more).seq ?_)))
    rintro e ts last after ⟨he, -⟩
    exact skipSemicolon_obeys (.ret ht he) _
  · refine .current rfl ((h .lowest s rest).seq ?_)
    rintro e ts last after ⟨he, -⟩
    exact skipSemicolon_obeys (.expr he) _

theorem block_obeys (h : ObeysTerms expr expr') {o : Token} (ho : o.kind = .openCurly) :
    Obeys (block expr) (block expr') (fun ts _ => Braced (o :: ts)) s [o] rest := by
  refine .current rfl (.advance ((inner_obeys (statement_obeys h)).seq ?_))
  rintro ss _ last after ⟨us, c, rfl, hs, hc⟩
  exact obeys_pure (by simpa using Braced.mk ho hs hc)

theorem conditional_obeys (h : ObeysTerms expr expr') {t : Token} (ht : t.kind = .ifWord) :
    Obeys (conditional expr) (conditional expr') (fun ts _ => Term .call ts) s [] (t :: rest) := by
  refine .push (.current rfl (.expectPeek (by decide) fun o more ho => .advance ?_))
  refine (h .lowest s more).seq ?_
  rintro e ts last after ⟨he, -⟩
  refine .expectPeek (by decide) fun c more hc => .expectPeek (by decide) fun b more hb => ?_
  refine (block_obeys h hb).seq fun body us last after hus => .peek ?_
  have hcond := Term.cond ht ho he hc hus
  split
  · next hw =>
    obtain ⟨w, more, rfl, hw⟩ := State.eq_cons_of_current hw (by decide)
    refine .advance (.push (.expectPeek (by decide) fun d more hd => ?_))
    refine (block_obeys h hd).seq fun alternative vs last after hvs => obeys_pure ?_
    simpa using Term.condElse ht ho he hc hus hw hvs
  · exact obeys_pure (by simpa using hcond)

theorem parameter_obeys (x : Token) (rest : List Token) :
    Obeys parameter parameter (fun ts _ => ∃ i, Name ts i) s [x] rest :=
  .expectPeek (by decide) fun name _ hname => obeys_pure ⟨_, name, hname, rfl, rfl⟩

theorem function_obeys (h : ObeysTerms expr expr') {t : Token} (ht : t.kind = .fnWord) :
    Obeys (function expr) (function expr') (fun ts _ => Term .call ts) s [] (t :: rest) := by
  refine .push (.current rfl (.expectPeek (by decide) fun o more ho => ?_))
  refine (parenthesised_obeys (L := fun ts => ∃ is, Separated Name ts is) parameter_obeys
    ?_ ?_).seq ?_
  · rintro ts ⟨i, hi⟩
    exact ⟨[i], .one hi⟩
  · rintro ts comma us ⟨i, hi⟩ hcomma ⟨is, his⟩
    exact ⟨i :: is, .more hi hcomma his⟩
  · rintro is _ last after ⟨us, c, rfl, hus, hc⟩
    obtain ⟨is, hps⟩ : ∃ is, Parameters us is := by
      obtain rfl | ⟨is, his⟩ := hus
      · exact ⟨[], .none⟩
      · exact ⟨is, .some his⟩
    refine .expectPeek (by decide) fun b more hb => ?_
    refine (block_obeys h hb).seq fun body vs last after hvs => obeys_pure ?_
    simpa using Term.fn ht ho hps hc hvs

theorem operand_obeys (h : ObeysTerms expr expr') :
    Obeys (operand .standard expr) (operand .standard expr')
      (fun ts after => ∃ q, .unary ≤ q ∧ Term q ts ∧ pull s after ≤ q) s [] rest := by
  have ofCall {p q : Parse Expr} (hr : Obeys p q (fun ts _ => Term .call ts) s [] rest) :
      Obeys p q (fun ts after => ∃ q, .unary ≤ q ∧ Term q ts ∧ pull s after ≤ q) s [] rest :=
    hr.mono fun ts after hts => ⟨.call, by decide, hts, le_call _⟩
  refine .current rfl ?_
  rw [List.nil_append]
  split
  · next rule hr =>
    have hcons : ∃ t more, rest = t :: more ∧ Rules.standard.operand t.kind = some rule := by
      cases rest with
      | nil => cases hr
      | cons t more => exact ⟨t, more, rfl, hr⟩
    obtain ⟨t, more, rfl, hr⟩ := hcons
    obtain rfl | ⟨rfl, ht⟩ | ⟨rfl, ht⟩ | ⟨rfl, ht⟩ | ⟨rfl, ht⟩ := standard_operand hr
    · exact ofCall primary_obeys
    · exact (prefixed_obeys h ht).mono fun ts after hts => ⟨.unary, Nat.le_refl _, hts⟩
    · exact ofCall (grouped_obeys h ht)
    · exact ofCall (conditional_obeys h ht)
    · exact ofCall (function_obeys h ht)
  · exact ofCall (obeys_refuse ⟨[sample .identifier], [], .name rfl⟩)

theorem argument_obeys (h : ObeysTerms expr expr') (x : Token) (rest : List Token) :
    Obeys (argument expr) (argument expr') (fun ts _ => Term .lowest ts) s [x] rest :=
  .advance ((h .lowest s rest).mono fun _ _ hts => hts.1)

theorem operator_obeys (h : ObeysTerms expr expr') {op : Token} {p : Power} {rule : OperatorRule}
    (hr : Rules.standard.operator op.kind = some (p, rule)) (e : Expr) :
    Obeys (rule.parse expr p e) (rule.parse expr' p e)
      (fun us after => (∀ ts, Term p ts → Term p (ts ++ op :: us)) ∧ pull s after ≤ p)
      s [op] rest := by
  obtain ⟨rfl, hop⟩ | ⟨rfl, hop, rfl⟩ := standard_operator hr
  · refine .current rfl (.advance ((h p s rest).seq ?_))
    rintro r us last after ⟨hus, hp⟩
    rw [floor_eq_tighter hop] at hus
    exact obeys_pure ⟨fun ts hts => by simpa using Term.binary hts hop hus, hp⟩
  · refine .current rfl ((parenthesised_obeys (L := SomeTerms) (argument_obeys h)
      (fun ts => .one) fun ts comma us => .more).seq ?_)
    rintro es _ last after ⟨us, c, rfl, hus, hc⟩
    have hargs : Terms us := by
      obtain rfl | hus := hus
      · exact .none
      · exact .some hus
    exact obeys_pure ⟨fun ts hts => by simpa using Term.call hts hop hargs hc, le_call _⟩

/-- One round of the loop of an expression, at an operator or at none. -/
def widen (expr : Power → Parse Expr) (c : Power) (e : Expr) :
    Option (Power × OperatorRule) → Parse Expr
  | none => return e
  | some (p, rule) => do
    if c < p then
      advance
      let wider ← rule.parse expr p e
      extend .standard expr c wider
    else return e

theorem run_extend_standard (expr : Power → Parse Expr) (c : Power) (e : Expr) (s : State) :
    (extend .standard expr c e).run s =
      (peek >>= fun t => widen expr c e (Rules.standard.operator t.kind)).run s := by
  rw [run_bind, run_peek]
  change _ = (widen expr c e (Rules.standard.operator s.peek.kind)).run s
  cases hr : Rules.standard.operator s.peek.kind with
  | none => exact run_extend_none hr e
  | some r =>
    obtain ⟨p, rule⟩ := r
    by_cases hp : c < p
    · have hs : s.rest ≠ [] :=
        State.rest_ne_nil_of_peek fun hk => by simp [hk, Rules.standard] at hr
      rw [run_extend_step hs hr hp, widen, if_pos hp]
    · rw [run_extend_loose hr hp, widen, if_neg hp, run_pure]

/-- The loop of an expression, behind a term of some power that what comes next does not cut. -/
theorem extend_obeys (h : ObeysTerms expr expr') {c q : Power} {ts : List Token} (hts : Term q ts)
    (hq : pull s rest ≤ q) (hc : floor c ≤ q) (e : Expr) :
    Obeys (extend .standard expr c e) (extend .standard expr' c e)
      (fun us after => Term (floor c) (ts ++ us) ∧ pull s after ≤ c) s [x] rest := by
  induction hl : rest.length using Nat.strongRecOn generalizing x rest ts q e with
  | ind l ih =>
    refine .transport ?_ (agrees_of_run (run_extend_standard expr c e _) rfl) fun s' rest' _ =>
      agrees_of_run (run_extend_standard expr' c e _) rfl
    have hstop (hp : pull s rest ≤ c) : Term (floor c) (ts ++ []) ∧ pull s rest ≤ c :=
      ⟨by simpa using hts.lower hc, hp⟩
    refine .peek ?_
    cases hr : Rules.standard.operator (s.on rest).current.kind with
    | none =>
      refine obeys_pure (hstop ?_)
      rw [pull, Rules.power, hr]
      exact Nat.zero_le _
    | some r =>
      obtain ⟨p, rule⟩ := r
      have hpull : pull s rest = p := by rw [pull, Rules.power, hr]; rfl
      by_cases hp : c < p
      · obtain ⟨op, more, rfl⟩ : ∃ op more, rest = op :: more := by
          cases rest with
          | nil => cases hr
          | cons op more => exact ⟨op, more, rfl⟩
        have hp' : Term p ts := hts.lower (hpull ▸ hq)
        rw [widen, widen, if_pos hp, if_pos hp]
        refine .advance (.push ((operator_obeys h hr e).bind (fun us after hus => ?_) ?_))
        · exact ⟨[], [], by simpa using (hus.1 ts hp').lower (floor_le_of_lt hp), Nat.zero_le _⟩
        · rintro wider us last after rfl ⟨hus, hpull'⟩
          have hlt : after.length < l := by
            rw [← hl, List.length_cons, List.length_append]
            omega
          have hnext := ih after.length hlt (x := last) (hus ts hp') hpull' (floor_le_of_lt hp)
            wider rfl
          simpa using hnext
      · rw [widen, widen, if_neg hp, if_neg hp]
        exact obeys_pure (hstop (hpull ▸ Nat.le_of_not_lt hp))

theorem expression_obeys {levels levels' : Nat} (hle : levels ≤ levels') :
    ObeysTerms (expression .standard levels) (expression .standard levels') := by
  induction levels generalizing levels' with
  | zero =>
    intro c s rest
    refine ⟨⟨[sample .identifier], [], ?_, Nat.zero_le _⟩, fun he hd => ?_, fun hy => ?_⟩
    · exact (Term.name rfl).lower (le_call _)
    · rw [expression, errs_current, errs_fail] at he
      exact absurd (congrArg SyntaxError.cause he) hd
    · exact absurd hy not_yields_expression_zero
  | succ levels ih =>
    obtain ⟨levels', rfl⟩ : ∃ l, levels' = l + 1 := ⟨levels' - 1, by omega⟩
    have h := ih (Nat.le_of_succ_le_succ hle)
    intro c s rest
    refine (operand_obeys h).seq ?_
    rintro e ts last after ⟨q, hq, hts, hpull⟩
    exact extend_obeys h hts hpull (Nat.le_trans (floor_le_unary c) hq) e

/-- The first error of a whole input: what was read can be completed, and other inputs with the same
tokens up to this one have the same first error, read on more levels. -/
theorem program_errs (h : ∀ s rest, Obeys stmt stmt' (fun ts _ => Ended ts) s [] rest)
    {e : SyntaxError} (he : (program stmt).Errs (s.on rest) e)
    (hd : e.cause ≠ .tooDeep maxNesting) :
    ∃ ts after, rest = ts ++ after ∧ e.position = (s.on after).current.position ∧
      (∃ more, Sentence (ts ++ more)) ∧
        ∀ after', (s.on after').current = (s.on after).current →
          (program stmt').Errs (s.on (ts ++ after')) e := by
  induction hl : rest.length using Nat.strongRecOn generalizing rest with
  | ind l ih =>
    obtain ⟨hne, he⟩ := errs_round.1 ((program_agrees stmt _).errs.1 he)
    obtain ⟨hk, -⟩ | ⟨-, he | ⟨a, u, hy, he⟩⟩ := he
    · exact absurd hk hne
    · obtain ⟨ts, after, rfl, hpos, ⟨more, _, hm⟩, hq⟩ := (h s rest).errs he hd
      refine ⟨ts, after, rfl, hpos, ⟨more, ?_⟩, fun after' hn => ?_⟩
      · simpa using hm.sentence .nil
      · have hne' : (s.on (ts ++ after')).current.kind ≠ .eof := current_append hn ts ▸ hne
        exact (program_agrees stmt' _).errs.2
          (errs_round.2 ⟨hne', .inr ⟨hne', .inl (hq s after' hn)⟩⟩)
    · obtain ⟨ts, last, after, rfl, rfl, hts, hq⟩ := (h s rest).yields hy
      have hlt : after.length < l := by
        have hpos := List.length_pos_iff.2 hts.ne_nil
        rw [← hl, List.length_append]
        omega
      obtain ⟨us, after, rfl, hpos, ⟨more, hm⟩, hq'⟩ := ih after.length hlt he rfl
      refine ⟨ts ++ us, after, by simp, hpos, ⟨more, ?_⟩, fun after' hn => ?_⟩
      · rw [List.append_assoc]
        exact hts.sentence hm
      · rw [List.append_assoc]
        have hn' := current_append hn us
        have hne' : (s.on (ts ++ (us ++ after'))).current.kind ≠ .eof :=
          current_append hn' ts ▸ hne
        exact (program_agrees stmt' _).errs.2
          (errs_round.2 ⟨hne', .inr ⟨hne', .inr ⟨a, _, hq s _ hn', hq' after' hn⟩⟩⟩)

end FrontEnd.Parse

namespace FrontEnd

open Parse Grammar

/-- Each token of a text begins in the text, also where offsets are kept modulo `2 ^ 32`. -/
theorem offset_of_mem_scan {file : String} {offset : Nat} {cs : List Char} {t : Token}
    (ht : t ∈ scan file offset cs) (hsize : offset + Text.byteSize cs < UInt32.size) :
    offset ≤ t.position.offset.toNat ∧ t.position.offset.toNat < offset + Text.byteSize cs := by
  fun_induction scan file offset cs with
  | case1 offset => simp at ht
  | case2 offset c cs hb ih =>
    rw [Text.byteSize_cons, ← Nat.add_assoc] at hsize ⊢
    have h := ih ht hsize
    omega
  | case3 offset c cs hb x size ih =>
    have hsplit : Text.byteSize (c :: cs) = size + Text.byteSize x.rest := by
      rw [← Lexeme.text_append_rest c cs, Text.byteSize_append]
    rw [hsplit, ← Nat.add_assoc] at hsize ⊢
    have hpos : size ≠ 0 := mt Text.byteSize_eq_zero_iff.1 (Lexeme.text_ne_nil c cs)
    obtain rfl | ht := List.mem_cons.1 ht
    · have hstart : offset.toUInt32.toNat = offset := UInt32.toNat_ofNat_of_lt' (by omega)
      change offset ≤ offset.toUInt32.toNat ∧ offset.toUInt32.toNat < _
      omega
    · have h := ih ht hsize
      omega

theorem scan_increasing {file : String} {offset : Nat} {cs : List Char}
    (hsize : offset + Text.byteSize cs < UInt32.size) :
    (scan file offset cs).Pairwise fun t u => t.position.offset < u.position.offset := by
  fun_induction scan file offset cs with
  | case1 offset => exact .nil
  | case2 offset c cs hb ih =>
    rw [Text.byteSize_cons, ← Nat.add_assoc] at hsize
    exact ih hsize
  | case3 offset c cs hb x size ih =>
    have hsplit : Text.byteSize (c :: cs) = size + Text.byteSize x.rest := by
      rw [← Lexeme.text_append_rest c cs, Text.byteSize_append]
    rw [hsplit, ← Nat.add_assoc] at hsize
    have hpos : size ≠ 0 := mt Text.byteSize_eq_zero_iff.1 (Lexeme.text_ne_nil c cs)
    refine .cons (fun t ht => ?_) (ih hsize)
    have h := offset_of_mem_scan ht hsize
    have hstart : offset.toUInt32.toNat = offset := UInt32.toNat_ofNat_of_lt' (by omega)
    change offset.toUInt32 < _
    rw [UInt32.lt_iff_toNat_lt, hstart]
    omega

theorem tokenize_increasing {source : String} (file : Option String)
    (hsize : Text.byteSize source.toList < UInt32.size) :
    (tokenize source file).Pairwise fun t u => t.position.offset < u.position.offset := by
  have hsize' : 0 + Text.byteSize source.toList < UInt32.size := by omega
  refine List.pairwise_append.2 ⟨scan_increasing hsize', List.pairwise_singleton _ _, ?_⟩
  intro t ht u hu
  rw [List.mem_singleton] at hu
  subst hu
  have h := offset_of_mem_scan ht hsize'
  have hend : (Text.byteSize source.toList).toUInt32.toNat = Text.byteSize source.toList :=
    UInt32.toNat_ofNat_of_lt' hsize
  change _ < (Text.byteSize source.toList).toUInt32
  rw [UInt32.lt_iff_toNat_lt, hend]
  omega

/-- A position belongs to one token only. -/
theorem index_eq_of_position {source : String} {file : Option String}
    (hsize : Text.byteSize source.toList < UInt32.size) {i j : Nat} {t u : Token}
    (hi : (tokenize source file)[i]? = some t) (hj : (tokenize source file)[j]? = some u)
    (h : t.position = u.position) : i = j := by
  have hinc := List.pairwise_iff_getElem.1 (tokenize_increasing file hsize)
  obtain ⟨hi', rfl⟩ := List.getElem?_eq_some_iff.1 hi
  obtain ⟨hj', rfl⟩ := List.getElem?_eq_some_iff.1 hj
  obtain hlt | heq | hgt := Nat.lt_trichotomy i j
  · have := hinc i j hi' hj' hlt
    rw [h] at this
    exact absurd this (UInt32.lt_irrefl _)
  · exact heq
  · have := hinc j i hj' hi' hgt
    rw [h] at this
    exact absurd this (UInt32.lt_irrefl _)

theorem getElem?_tokenize {source : String} {file : Option String} {ts after : List Token}
    (h : (State.ofSource source file).rest = ts ++ after) :
    let s := State.ofSource source file
    (tokenize source file).take ts.length = ts ∧
      (tokenize source file)[ts.length]? = some (s.on after).current := by
  intro s
  have htokens : tokenize source file = ts ++ (after ++ [.eof s.ending]) := by
    rw [← List.append_assoc, ← h]
    rfl
  rw [htokens]
  refine ⟨List.take_left, ?_⟩
  rw [List.getElem?_append_right (Nat.le_refl _), Nat.sub_self]
  cases after <;> rfl

theorem errs_of_parse {source : String} {file : Option String} {e : SyntaxError}
    {es : List SyntaxError} (h : (parse source file).2 = e :: es) :
    let s := State.ofSource source file
    reader.Errs (s.on s.rest) e := by
  intro s
  obtain ⟨ss, t, hr, hp⟩ := parse_eq source file
  have ht : t.diagnostics = e :: es := by rwa [hp] at h
  change [] ++ [e] <+: reader.log (State.ofSource source file)
  rw [log_of_ok hr, ht]
  exact ⟨es, rfl⟩

/-- With the same tokens up to the one of the first error no input is a sentence: a sentence is read
without errors once there are levels enough for it. -/
theorem not_sentence_of_parse {source : String} {file : Option String}
    (hsize : Text.byteSize source.toList < UInt32.size) {e : SyntaxError} {es : List SyntaxError}
    (h : (parse source file).2 = e :: es) (hdeep : e.cause ≠ .tooDeep maxNesting)
    {ts after after' : List Token} (hrest : (State.ofSource source file).rest = ts ++ after)
    (hpos : e.position = ((State.ofSource source file).on after).current.position)
    (hn : ((State.ofSource source file).on after').current =
      ((State.ofSource source file).on after).current) : ¬ Sentence (ts ++ after') := by
  intro hs
  obtain ⟨ss, n, hc⟩ := hs.clauses
  obtain ⟨us, after₁, hrest₁, hpos₁, -, hq⟩ :=
    program_errs (statement_obeys (expression_obeys (Nat.le_max_left maxNesting n)))
      (errs_of_parse h) hdeep
  have hlen : us.length = ts.length :=
    index_eq_of_position hsize (getElem?_tokenize hrest₁).2 (getElem?_tokenize hrest).2
      (hpos₁.symm.trans hpos)
  obtain ⟨rfl, rfl⟩ := List.append_inj (hrest₁.symm.trans hrest) hlen
  have hy := program_complete (expression_complete (max maxNesting n)) (.ofSource source file) hc
    (Nat.le_max_right _ _)
  exact hy.not_errs (hq after' hn)

/-- The tokens before this index begin a sentence, and with the token at it they do not. -/
def Misplaced (ts : List Token) (k : Nat) : Prop :=
  (∃ more, Sentence (ts.take k ++ more)) ∧ ∀ more, ¬ Sentence (ts.take (k + 1) ++ more)

/-- The first error, unless it is about nesting, stands at the first token up to which no sentence
begins; at the end of the input if that is the beginning of a sentence only. -/
theorem first_error_earliest (source : String) (file : Option String)
    (hsize : Text.byteSize source.toList < UInt32.size) (e : SyntaxError) (es : List SyntaxError)
    (h : (parse source file).2 = e :: es) (hdeep : e.cause ≠ .tooDeep maxNesting) :
    ∃ k t, (tokenize source file)[k]? = some t ∧ t.position = e.position ∧
      (∀ j u, (tokenize source file)[j]? = some u → u.position = e.position → j = k) ∧
        Misplaced (tokenize source file) k ∧
          (t.kind = .eof → ¬ Sentence ((tokenize source file).take k)) := by
  let s := State.ofSource source file
  obtain ⟨ts, after, hrest, hpos, hviable, -⟩ := program_errs
    (statement_obeys (expression_obeys (Nat.le_refl maxNesting))) (errs_of_parse h) hdeep
  obtain ⟨htake, hk⟩ := getElem?_tokenize hrest
  have hno (after' : List Token) (hn : (s.on after').current = (s.on after).current) :
      ¬ Sentence (ts ++ after') := not_sentence_of_parse hsize h hdeep hrest hpos hn
  refine ⟨ts.length, _, hk, hpos.symm, fun j u hj hu => ?_, ⟨?_, fun more => ?_⟩, fun heof => ?_⟩
  · exact index_eq_of_position hsize hj hk (hu.trans hpos)
  · rwa [htake]
  · rw [List.take_add_one, htake, hk, Option.toList_some, List.append_assoc]
    exact hno _ rfl
  · have hnil : after = [] := by
      cases after with
      | nil => rfl
      | cons t more =>
        have hmem : t ∈ s.rest := by simp [s, hrest]
        exact absurd heof (kind_ne_eof_of_mem_scan hmem)
    rw [htake]
    simpa using hno [] (by rw [hnil])

theorem first_error_earliest_operand :
    let source := "let x = 5 + ; y"
    let e : SyntaxError := ⟨.noOperand .semicolon, ⟨12, "shell"⟩⟩
    Text.byteSize source.toList < UInt32.size ∧ (parse source none).2 = [e] ∧
      e.cause ≠ .tooDeep maxNesting ∧
        ∃ k t, (tokenize source none)[k]? = some t ∧ t.position = e.position ∧
          (∀ j u, (tokenize source none)[j]? = some u → u.position = e.position → j = k) ∧
            Misplaced (tokenize source none) k ∧
              (t.kind = .eof → ¬ Sentence ((tokenize source none).take k)) := by
  intro source e
  have hsize : Text.byteSize source.toList < UInt32.size := by decide +kernel
  have herr : (parse source none).2 = [e] := by decide +kernel
  exact ⟨hsize, herr, by decide, first_error_earliest source none hsize e [] herr (by decide)⟩

end FrontEnd
