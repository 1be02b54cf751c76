import FrontEnd.Proofs.Binding
import FrontEnd.Proofs.Spelling

namespace FrontEnd

open Grammar Text

variable {t u : Token} {k : TokenKind}

theorem kind_of_bare_eq (h : u.bare = t) : u.kind = t.kind := by rw [← h, Token.kind_bare]

theorem text_of_bare_eq (h : u.bare = t) : u.text = t.text := by rw [← h, Token.text_bare]

theorem kind_of_fits (h : t.fits [k] = true) : t.kind = k := by simpa using (fits_iff.1 h).2

theorem bare_of_fits (h : t.fits [k] = true) (hk : k ≠ .identifier ∧ k ≠ .int) :
    t.bare = fixedToken k := by
  obtain ⟨hp, -⟩ := fits_iff.1 h
  have hkind := kind_of_fits h
  unfold Token.isProper at hp
  split at hp
  · next hi => exact absurd (hkind.symm.trans hi) hk.1
  · next hi => exact absurd (hkind.symm.trans hi) hk.2
  · rw [hkind, decide_eq_true_eq] at hp
    simp [fixedToken, hp, Token.bare, hkind]

theorem spelled_empty : spelled "" = [] := by simp [spelled, scan]

theorem operator_of_infix {k : TokenKind} (h : k ∈ infixes) : ∃ p, k ∈ operators p := by
  simp only [infixes, List.mem_cons, List.not_mem_nil, or_false] at h
  obtain rfl | rfl | rfl | rfl | rfl | rfl | rfl | rfl := h
  · exact ⟨.equality, by decide⟩
  · exact ⟨.equality, by decide⟩
  · exact ⟨.relational, by decide⟩
  · exact ⟨.relational, by decide⟩
  · exact ⟨.additive, by decide⟩
  · exact ⟨.additive, by decide⟩
  · exact ⟨.multiplicative, by decide⟩
  · exact ⟨.multiplicative, by decide⟩

theorem name_rereads {i : Ident} (h : i.wellFormed = true) {ts : List Token}
    (hts : ts.map Token.bare = spelled i.value) :
    ∃ j, Name ts j ∧ j.relabel Token.bare = i.relabel Token.bare := by
  simp only [Ident.wellFormed, Bool.and_eq_true, decide_eq_true_eq] at h
  obtain ⟨ht, hv⟩ := h
  rw [hv, spelled_of_fits ht, List.map_eq_singleton_iff] at hts
  obtain ⟨u, rfl, hu⟩ := hts
  refine ⟨⟨u, u.text⟩, ⟨u, (kind_of_bare_eq hu).trans (kind_of_fits ht), rfl, rfl⟩, ?_⟩
  simp [Ident.relabel, hu, hv, text_of_bare_eq hu]

theorem names_reread : ∀ {is : List Ident}, is.all Ident.wellFormed = true → ∀ {ts : List Token},
    ts.map Token.bare = spelled (commaSeparated (is.map Ident.value)) → is ≠ [] →
      ∃ js, Separated Name ts js ∧
        js.map (Ident.relabel Token.bare) = is.map (Ident.relabel Token.bare)
  | [], _, _, _, hnil => absurd rfl hnil
  | [i], h, ts, hts, _ => by
    have hts : ts.map Token.bare = spelled i.value := by simpa [commaSeparated] using hts
    obtain ⟨j, hj, hb⟩ := name_rereads (by simpa using h) hts
    exact ⟨[j], .one hj, by simp [hb]⟩
  | i :: k :: is, h, ts, hts, _ => by
    rw [List.all_cons, Bool.and_eq_true] at h
    simp only [List.map_cons, spelled_commaSeparated_cons, List.map_eq_append_iff,
      List.map_eq_cons_iff] at hts
    obtain ⟨us, _, rfl, hus, comma, vs, rfl, hcomma, hvs⟩ := hts
    obtain ⟨j, hj, hb⟩ := name_rereads h.1 hus
    obtain ⟨js, hjs, hbs⟩ := names_reread h.2 hvs (by simp)
    exact ⟨j :: js, .more hj (kind_of_bare_eq hcomma) hjs, by rw [List.map_cons, hb, hbs]; rfl⟩

theorem parameters_reread {is : List Ident} (h : is.all Ident.wellFormed = true)
    {ts : List Token} (hts : ts.map Token.bare = spelled (commaSeparated (is.map Ident.value))) :
    ∃ js, Parameters ts js ∧
      js.map (Ident.relabel Token.bare) = is.map (Ident.relabel Token.bare) := by
  by_cases hnil : is = []
  · subst hnil
    have hts : ts.map Token.bare = spelled "" := hts
    rw [spelled_empty, List.map_eq_nil_iff] at hts
    exact ⟨[], hts ▸ .none, rfl⟩
  · obtain ⟨js, hjs, hb⟩ := names_reread h hts hnil
    exact ⟨js, .some hjs, hb⟩

/-- Tokens that read like the rendering of the expression spell it again. -/
def Expr.Rereads (e : Expr) : Prop :=
  ∀ {ts : List Token}, ts.map Token.bare = spelled e.render → ∃ e', Phrase .call ts e' e.depth ∧
    e'.relabel Token.bare placeless = e.relabel Token.bare lead

def Stmt.Rereads (s : Stmt) : Prop :=
  ∀ {ts : List Token}, ts.map Token.bare = spelled s.clause → ∃ s', Clause ts s' s.depth ∧
    s'.relabel Token.bare placeless = s.relabel Token.bare lead

def Block.Rereads (b : Block) : Prop :=
  ∀ {ts : List Token}, ts.map Token.bare = spelled b.render → ∃ b', Body ts b' b.depth ∧
    b'.relabel Token.bare placeless = b.relabel Token.bare lead

theorem ident_rereads {i : Ident} (h : i.wellFormed = true) : (Expr.ident i).Rereads := by
  intro ts hts
  obtain ⟨j, ⟨t, hk, rfl, rfl⟩, hj⟩ := name_rereads h hts
  exact ⟨_, .primary (.name hk), by simp [Expr.relabel, hj]⟩

theorem int_rereads (ht : t.fits [.int] = true) (hle : decimal t.text.toList ≤ maxInteger) :
    (Expr.int t (.ofNat (decimal t.text.toList))).Rereads := by
  intro ts hts
  rw [Expr.render, spelled_of_fits ht, List.map_eq_singleton_iff] at hts
  obtain ⟨u, rfl, hu⟩ := hts
  have htext : u.text = t.text := by simpa using text_of_bare_eq hu
  rw [← htext] at hle ⊢
  refine ⟨_, .primary (.number ((kind_of_bare_eq hu).trans (kind_of_fits ht)) hle), ?_⟩
  simp [Expr.relabel, hu]

theorem bool_rereads {v : Bool} (ht : t.fits [if v then .trueWord else .falseWord] = true) :
    (Expr.bool t v).Rereads := by
  intro ts hts
  have htext : (Expr.bool t v).render = t.text := by
    have hp := (fits_iff.1 ht).1
    cases v <;> simpa [Token.isProper, kind_of_fits ht, TokenKind.fixedText, Expr.render] using hp
  rw [htext, spelled_of_fits ht, List.map_eq_singleton_iff] at hts
  obtain ⟨u, rfl, hu⟩ := hts
  have hk := (kind_of_bare_eq hu).trans (kind_of_fits ht)
  cases v with
  | true => exact ⟨_, .primary (.yes hk), by simp [Expr.relabel, hu]⟩
  | false => exact ⟨_, .primary (.no hk), by simp [Expr.relabel, hu]⟩

/-- Parentheses add a level of nesting and leave nothing else behind. -/
theorem group_rereads {as : List Token} {e : Expr} {n : Nat}
    (h : ∀ us : List Token, us.map Token.bare = as → ∃ e', Phrase .lowest us e' n ∧
      e'.relabel Token.bare placeless = e.relabel Token.bare lead)
    {ts : List Token}
    (hts : ts.map Token.bare = fixedToken .openParen :: as ++ [fixedToken .closeParen]) :
    ∃ e', Phrase .call ts e' (n + 1) ∧
      e'.relabel Token.bare placeless = e.relabel Token.bare lead := by
  simp only [List.map_eq_append_iff, List.map_eq_cons_iff, List.map_eq_nil_iff] at hts
  obtain ⟨_, _, rfl, ⟨o, us, rfl, ho, hus⟩, c, _, rfl, hc, rfl⟩ := hts
  obtain ⟨e', he', hb⟩ := h us hus
  exact ⟨e', .primary (.group (kind_of_bare_eq ho) he' (kind_of_bare_eq hc)), hb⟩

theorem unary_rereads {r : Expr} (ht : t.fits [.dash, .not] = true) (hw : r.wellFormed = true)
    (hr : r.Rereads) : (Expr.unary t t.text r).Rereads := by
  intro ts hts
  rw [spelled_unary ht hw] at hts
  rw [Expr.depth_unary]
  refine group_rereads (fun us hus => ?_) hts
  obtain ⟨op, us, rfl, hop, hus⟩ := List.map_eq_cons_iff.1 hus
  obtain ⟨r', hr', hb⟩ := hr hus
  have hk : op.kind = .dash ∨ op.kind = .not := by
    rw [kind_of_bare_eq hop]
    simpa using (fits_iff.1 ht).2
  have hp := Phrase.unary hk (hr'.lower (by decide))
  exact ⟨_, hp.lower (by decide), by simp [Expr.relabel, hop, text_of_bare_eq hop, hb]⟩

theorem binary_rereads {l r : Expr} (ht : t.fits infixes = true) (hl : l.Rereads)
    (hr : r.Rereads) : (Expr.binary t l t.text r).Rereads := by
  intro ts hts
  rw [spelled_binary l r ht] at hts
  rw [Expr.depth_binary]
  refine group_rereads (fun us hus => ?_) hts
  obtain ⟨vs, _, rfl, hvs, hws⟩ := List.map_eq_append_iff.1 hus
  obtain ⟨op, ws, rfl, hop, hws⟩ := List.map_eq_cons_iff.1 hws
  obtain ⟨l', hl', hbl⟩ := hl hvs
  obtain ⟨r', hr', hbr⟩ := hr hws
  have hk : op.kind = t.kind := by simpa using kind_of_bare_eq hop
  obtain ⟨p, hp⟩ := operator_of_infix (fits_iff.1 ht).2
  rw [← hk] at hp
  have hb := Phrase.binary (hl'.lower (le_call _)) hp (hr'.lower (le_call _))
  exact ⟨_, hb.lower (lowest_le _), by simp [Expr.relabel, hop, text_of_bare_eq hop, hbl, hbr]⟩

theorem cond_rereads {c : Expr} {b : Block} (ht : t.fits [.ifWord] = true) (hc : c.Rereads)
    (hb : b.Rereads) : (Expr.cond t c b none).Rereads := by
  intro ts hts
  rw [spelled_cond c b ht] at hts
  simp only [List.cons_append, List.map_eq_append_iff, List.map_eq_cons_iff] at hts
  obtain ⟨w, _, rfl, hw, o, _, rfl, ho, us, _, rfl, hus, cl, vs, rfl, hcl, hvs⟩ := hts
  obtain ⟨c', hc', hbc⟩ := hc hus
  obtain ⟨b', hb', hbb⟩ := hb hvs
  rw [Expr.depth_cond]
  have hp := Primary.cond ((kind_of_bare_eq hw).trans (kind_of_fits ht)) (kind_of_bare_eq ho)
    (hc'.lower (lowest_le _)) (kind_of_bare_eq hcl) hb'
  exact ⟨_, .primary hp, by simp [Expr.relabel, hw, hbc, hbb]⟩

theorem cond_else_rereads {c : Expr} {b d : Block} (ht : t.fits [.ifWord] = true)
    (hc : c.Rereads) (hb : b.Rereads) (hd : d.Rereads) : (Expr.cond t c b (some d)).Rereads := by
  intro ts hts
  rw [spelled_cond_else c b d ht] at hts
  simp only [List.cons_append, List.append_assoc, List.map_eq_append_iff,
    List.map_eq_cons_iff] at hts
  obtain ⟨w, _, rfl, hw, o, _, rfl, ho, us, _, rfl, hus, cl, _, rfl, hcl, vs, _, rfl, hvs, el, ws,
    rfl, hel, hws⟩ := hts
  obtain ⟨c', hc', hbc⟩ := hc hus
  obtain ⟨b', hb', hbb⟩ := hb hvs
  obtain ⟨d', hd', hbd⟩ := hd hws
  rw [Expr.depth_cond_else]
  have hp := Primary.condElse ((kind_of_bare_eq hw).trans (kind_of_fits ht)) (kind_of_bare_eq ho)
    (hc'.lower (lowest_le _)) (kind_of_bare_eq hcl) hb' (kind_of_bare_eq hel) hd'
  exact ⟨_, .primary (by simpa using hp), by simp [Expr.relabel, hw, hbc, hbb, hbd]⟩

theorem fn_rereads {is : List Ident} {b : Block} (ht : t.fits [.fnWord] = true)
    (his : is.all Ident.wellFormed = true) (hb : b.Rereads) : (Expr.fn t is b).Rereads := by
  intro ts hts
  rw [spelled_fn is b ht] at hts
  simp only [List.cons_append, List.map_eq_append_iff, List.map_eq_cons_iff] at hts
  obtain ⟨w, _, rfl, hw, o, _, rfl, ho, us, _, rfl, hus, cl, vs, rfl, hcl, hvs⟩ := hts
  obtain ⟨js, hjs, hbj⟩ := parameters_reread his hus
  obtain ⟨b', hb', hbb⟩ := hb hvs
  rw [Expr.depth_fn]
  have hp := Primary.fn ((kind_of_bare_eq hw).trans (kind_of_fits ht)) (kind_of_bare_eq ho) hjs
    (kind_of_bare_eq hcl) hb'
  exact ⟨_, .primary hp, by simp only [Expr.relabel, hw, hbj, hbb]⟩

theorem items_reread : ∀ {es : List Expr}, es ≠ [] → (∀ e ∈ es, e.Rereads) →
    ∀ {ts : List Token}, ts.map Token.bare = spelled (commaSeparated (Expr.renderList es)) →
      ∃ es', Items ts es' (Expr.depthList es) ∧
        Expr.relabelList Token.bare placeless es' = Expr.relabelList Token.bare lead es
  | [], hnil, _, _, _ => absurd rfl hnil
  | [e], _, h, ts, hts => by
    have hts : ts.map Token.bare = spelled e.render := by
      simpa [Expr.renderList, commaSeparated] using hts
    obtain ⟨e', he', hb⟩ := h e (by simp) hts
    rw [Expr.depthList_singleton]
    exact ⟨[e'], .one (he'.lower (lowest_le _)), by simp [Expr.relabelList, hb]⟩
  | e :: f :: es, _, h, ts, hts => by
    simp only [Expr.renderList, spelled_commaSeparated_cons, List.map_eq_append_iff,
      List.map_eq_cons_iff] at hts
    obtain ⟨us, _, rfl, hus, comma, vs, rfl, hcomma, hvs⟩ := hts
    obtain ⟨e', he', hb⟩ := h e (by simp) hus
    obtain ⟨es', hes', hbs⟩ :=
      items_reread (List.cons_ne_nil f es) (fun x hx => h x (List.mem_cons_of_mem e hx)) hvs
    rw [Expr.depthList_cons]
    exact ⟨e' :: es', .more (he'.lower (lowest_le _)) (kind_of_bare_eq hcomma) hes',
      by rw [Expr.relabelList, Expr.relabelList, hb, hbs]⟩

theorem arguments_reread {es : List Expr} (h : ∀ e ∈ es, e.Rereads) {ts : List Token}
    (hts : ts.map Token.bare = spelled (commaSeparated (Expr.renderList es))) :
    ∃ es', Arguments ts es' (Expr.depthList es) ∧
      Expr.relabelList Token.bare placeless es' = Expr.relabelList Token.bare lead es := by
  by_cases hnil : es = []
  · subst hnil
    have hts : ts.map Token.bare = spelled "" := hts
    rw [spelled_empty, List.map_eq_nil_iff] at hts
    exact ⟨[], hts ▸ .none, rfl⟩
  · obtain ⟨es', hes', hb⟩ := items_reread hnil h hts
    exact ⟨es', .some hes', hb⟩

theorem call_rereads {f : Expr} {es : List Expr} (ht : t.fits [.openParen] = true)
    (hf : f.Rereads) (hes : ∀ e ∈ es, e.Rereads) : (Expr.call t f es).Rereads := by
  intro ts hts
  rw [spelled_call] at hts
  simp only [List.append_assoc, List.cons_append, List.map_eq_append_iff, List.map_eq_cons_iff,
    List.map_eq_nil_iff] at hts
  obtain ⟨us, _, rfl, hus, o, _, rfl, ho, vs, _, rfl, hvs, cl, _, rfl, hcl, rfl⟩ := hts
  obtain ⟨f', hf', hbf⟩ := hf hus
  obtain ⟨es', hes', hbe⟩ := arguments_reread hes hvs
  have hp := Phrase.call hf' (kind_of_bare_eq ho) hes' (kind_of_bare_eq hcl)
  refine ⟨_, by simpa [Expr.depth_call] using hp, ?_⟩
  simp [Expr.relabel, hbf, hbe, ho, bare_of_fits ht]

theorem letBinding_rereads {i : Ident} {e : Expr} (ht : t.fits [.letWord] = true)
    (hi : i.wellFormed = true) (he : e.Rereads) : (Stmt.letBinding t i e).Rereads := by
  intro ts hts
  rw [spelled_letBinding e ht hi] at hts
  simp only [Ident.wellFormed, Bool.and_eq_true, decide_eq_true_eq] at hi
  simp only [List.map_eq_cons_iff] at hts
  obtain ⟨w, _, rfl, hw, name, _, rfl, hname, eq, us, rfl, heq, hus⟩ := hts
  obtain ⟨e', he', hb⟩ := he hus
  have hc := Clause.letBinding ((kind_of_bare_eq hw).trans (kind_of_fits ht))
    ((kind_of_bare_eq hname).trans (kind_of_fits hi.1)) (kind_of_bare_eq heq)
    (he'.lower (lowest_le _))
  refine ⟨_, hc, ?_⟩
  simp [Stmt.relabel, Ident.relabel, hw, hname, text_of_bare_eq hname, hi.2, hb]

theorem ret_rereads {e : Expr} (ht : t.fits [.returnWord] = true) (he : e.Rereads) :
    (Stmt.ret t e).Rereads := by
  intro ts hts
  rw [spelled_ret e ht] at hts
  obtain ⟨w, us, rfl, hw, hus⟩ := List.map_eq_cons_iff.1 hts
  obtain ⟨e', he', hb⟩ := he hus
  have hc := Clause.ret ((kind_of_bare_eq hw).trans (kind_of_fits ht)) (he'.lower (lowest_le _))
  exact ⟨_, hc, by simp [Stmt.relabel, hw, hb]⟩

theorem expr_rereads {e : Expr} (he : e.Rereads) : (Stmt.expr t e).Rereads := by
  intro ts hts
  obtain ⟨e', he', hb⟩ := he hts
  obtain ⟨u, us, rfl, -⟩ := he'.starts
  have hlead : lead t e = u.bare := by
    have hts : (u :: us).map Token.bare = spelled e.render := hts
    rw [lead, ← hts]
    rfl
  exact ⟨_, .expr (he'.lower (lowest_le _)), by simp [Stmt.relabel, placeless, hb, hlead]⟩

theorem inner_rereads {ss : List Stmt} (h : ∀ s ∈ ss, s.wellFormed = true ∧ s.Rereads)
    {ts : List Token} (hts : ts.map Token.bare = spelled (Stmt.renderInner ss)) :
    ∃ ss', Clauses ts ss' (Stmt.depthList ss) ∧
      Stmt.relabelList Token.bare placeless ss' = Stmt.relabelList Token.bare lead ss := by
  induction ss generalizing ts with
  | nil =>
    rw [Stmt.renderInner, spelled_empty, List.map_eq_nil_iff] at hts
    exact ⟨[], hts ▸ .nil, rfl⟩
  | cons s ss ih =>
    obtain ⟨hs, hss⟩ := List.forall_mem_cons.1 h
    rw [spelled_renderInner_cons hs.1] at hts
    simp only [List.map_eq_append_iff, List.map_eq_cons_iff] at hts
    obtain ⟨us, _, rfl, hus, semi, vs, rfl, hsemi, hvs⟩ := hts
    obtain ⟨s', hs', hb⟩ := hs.2 hus
    obtain ⟨ss', hss', hbs⟩ := ih hss hvs
    exact ⟨_, .ended hs' (kind_of_bare_eq hsemi) hss', by simp [Stmt.relabelList, hb, hbs]⟩

theorem block_rereads {ss : List Stmt} (ht : t.fits [.openCurly] = true)
    (h : ∀ s ∈ ss, s.wellFormed = true ∧ s.Rereads) : (Block.mk t ss).Rereads := by
  intro ts hts
  rw [spelled_block] at hts
  simp only [List.map_eq_append_iff, List.map_eq_cons_iff, List.map_eq_nil_iff] at hts
  obtain ⟨_, _, rfl, ⟨o, us, rfl, ho, hus⟩, cl, _, rfl, hcl, rfl⟩ := hts
  obtain ⟨ss', hss', hb⟩ := inner_rereads h hus
  exact ⟨_, .mk (kind_of_bare_eq ho) hss' (kind_of_bare_eq hcl),
    by simp [Block.relabel, hb, ho, bare_of_fits ht]⟩

mutual

theorem Expr.rereads : ∀ e : Expr, e.wellFormed = true → e.Rereads
  | .ident _, h => ident_rereads h
  | .int t v, h => by
    simp only [Expr.wellFormed, Bool.and_eq_true, decide_eq_true_eq] at h
    obtain ⟨⟨ht, hle⟩, rfl⟩ := h
    exact int_rereads ht hle
  | .bool _ _, h => bool_rereads h
  | .unary t o r, h => by
    simp only [Expr.wellFormed, Bool.and_eq_true, decide_eq_true_eq] at h
    obtain ⟨⟨ht, rfl⟩, hr⟩ := h
    exact unary_rereads ht hr (r.rereads hr)
  | .binary t l o r, h => by
    simp only [Expr.wellFormed, Bool.and_eq_true, decide_eq_true_eq] at h
    obtain ⟨⟨⟨ht, rfl⟩, hl⟩, hr⟩ := h
    exact binary_rereads ht (l.rereads hl) (r.rereads hr)
  | .cond t c b none, h => by
    simp only [Expr.wellFormed, Bool.and_eq_true] at h
    obtain ⟨⟨ht, hc⟩, hb⟩ := h
    exact cond_rereads ht (c.rereads hc) (b.rereads hb)
  | .cond t c b (some d), h => by
    simp only [Expr.wellFormed, Bool.and_eq_true] at h
    obtain ⟨⟨⟨ht, hc⟩, hb⟩, hd⟩ := h
    exact cond_else_rereads ht (c.rereads hc) (b.rereads hb) (d.rereads hd)
  | .fn t is b, h => by
    simp only [Expr.wellFormed, Bool.and_eq_true] at h
    obtain ⟨⟨ht, his⟩, hb⟩ := h
    exact fn_rereads ht his (b.rereads hb)
  | .call t f es, h => by
    simp only [Expr.wellFormed, Bool.and_eq_true] at h
    obtain ⟨⟨ht, hf⟩, hes⟩ := h
    exact call_rereads ht (f.rereads hf) (Expr.rereads_of_mem es hes)

theorem Expr.rereads_of_mem : ∀ es : List Expr, Expr.wellFormedList es = true →
    ∀ e ∈ es, e.Rereads
  | [], _ => by simp
  | e :: es, h => by
    simp only [Expr.wellFormedList, Bool.and_eq_true] at h
    exact List.forall_mem_cons.2 ⟨e.rereads h.1, Expr.rereads_of_mem es h.2⟩

theorem Stmt.rereads : ∀ s : Stmt, s.wellFormed = true → s.Rereads
  | .letBinding t i e, h => by
    simp only [Stmt.wellFormed, Bool.and_eq_true] at h
    obtain ⟨⟨ht, hi⟩, he⟩ := h
    exact letBinding_rereads ht hi (e.rereads he)
  | .ret t e, h => by
    simp only [Stmt.wellFormed, Bool.and_eq_true] at h
    exact ret_rereads h.1 (e.rereads h.2)
  | .expr _ e, h => expr_rereads (e.rereads h)
  | .block _, h => nomatch h

theorem Stmt.rereads_of_mem : ∀ ss : List Stmt, Stmt.wellFormedList ss = true →
    ∀ s ∈ ss, s.wellFormed = true ∧ s.Rereads
  | [], _ => by simp
  | s :: ss, h => by
    simp only [Stmt.wellFormedList, Bool.and_eq_true] at h
    exact List.forall_mem_cons.2 ⟨⟨h.1, s.rereads h.1⟩, Stmt.rereads_of_mem ss h.2⟩

theorem Block.rereads : ∀ b : Block, b.wellFormed = true → b.Rereads
  | .mk t ss, h => by
    simp only [Block.wellFormed, Bool.and_eq_true] at h
    exact block_rereads h.1 (Stmt.rereads_of_mem ss h.2)

end

end FrontEnd
